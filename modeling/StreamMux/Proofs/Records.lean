import StreamMux.Proofs.Ending

/-! What each fiber records, and what it leaves alone. A frame enters the write queue by the turn of one
fiber only, which its flag names, and so does every other event but the end of the session and the entry
of a connection. The counters of the keep-alive and the places of the acceptor change in turns of their
own loops; the turns of all others keep them. -/

namespace StreamMux

/-! ### Who records what -/

/-- The frames that a fiber queues. -/
def Fiber.queues : Fiber → Flag → Bool
  | .reader, .connClose | .reader, .pingReturn
  | .acceptor, .newConnOk | .acceptor, .newConnFail
  | .pinger, .ping
  | .call _, .newConn | .call _, .newMsg | .call _, .newMsgPart | .call _, .msgSendOk => true
  | _, _ => false

/-- What a fiber records. -/
def Fiber.records : Fiber → Event → Bool
  | fiber, .queued out => fiber.queues out.frame.flag
  | .writer, .started _ | .writer, .wrote _ | .writer, .closed
  | .reader, .dispatched _ | .reader, .routed _ _ | .reader, .buffered _ _ | .reader, .staged _
  | .reader, .closed
  | .acceptor, .registered _ | .acceptor, .decided _ _ | .acceptor, .published _
  | .pinger, .ticked | .pinger, .closed
  | .returns, .returned _
  | .call _, .registered _ | .call _, .handedOut _ _ | .call _, .spent _ _ _ | .call _, .closed => true
  | .call k, .finished j _ => j = k
  | _, _ => false

def Fiber.Does (fiber : Fiber) (e : Event) : Prop := fiber.records e = true

/-- The user or the far end of the link records it. -/
def Event.isOutside : Event → Bool
  | .arrived _ | .closed => true
  | .queued out => out.frame.flag = .connClose
  | _ => false

/-- The event gives no connection to a call. -/
def Event.isBare : Event → Bool
  | .finished _ (.conn _) => false
  | _ => true

/-! ### What is left alone -/

/-- What the writer, the acceptor and the keep-alive of a session work with, and what its calls ask for. -/
structure Works where
  settings : Settings
  kind : LinkKind
  writer : WriterStage
  held : Bytes
  acceptor : AcceptorStage
  published : List Nat
  pinger : PingerStage
  misses : Nat
  idleTicks : Nat
  requests : List Request

/-- Only an open waits for an answer, and only an accept for a connection. -/
def Call.Placed (c : Call) : Prop :=
  match c.stage with
  | .answering _ _ => c.request = .openConn
  | .accepting => c.request = .accept
  | _ => True

namespace Session

def works (s : Session) : Works :=
  ⟨s.settings, s.kind, s.writer, s.outlet.held, s.acceptor, s.published, s.pinger, s.misses, s.idleTicks,
    s.calls.map Call.request⟩

def Placed (s : Session) : Prop := ∀ c ∈ s.calls, c.Placed

/-- From `s` to `t` only events that `p` allows were recorded, the works stayed as they were, and so did
the staged connections unless the session has ended. -/
structure Keeps (p : Event → Prop) (s t : Session) : Prop where
  works : t.works = s.works
  trace : ∃ es, (∀ e ∈ es, p e) ∧ t.trace = es ++ s.trace
  running : t.closed = false → s.closed = false ∧ t.staged.state = s.staged.state
  placed : s.Placed → t.Placed

theorem closed_foldl_shutConn (conns : List Nat) (s : Session) :
    (conns.foldl (fun s n => s.shutConn n) s).closed = s.closed := by
  induction conns generalizing s with
  | nil => rfl
  | cons n conns ih => rw [List.foldl_cons, ih, closed_shutConn]

theorem closed_stopOutbox (s : Session) : s.stopOutbox.closed = s.closed := rfl

theorem closed_stopStaged (s : Session) : s.stopStaged.closed = s.closed := closed_foldl_shutConn ..

/-- The end of an open session, before its loops learn of it. -/
def emptied (s : Session) : Session :=
  s.registry.close.2.foldl (fun s n => s.shutConn n)
    (({ s with closed := true, registry := s.registry.close.1 } : Session).note .closed)

theorem closed_emptied (s : Session) : s.emptied.closed = true := closed_foldl_shutConn ..

theorem close_of_open {s : Session} (hc : s.closed = false) :
    s.close = (s.emptied.wake s.emptied.cancellable).stopOutbox.stopStaged := by
  rw [close, if_neg (by simp [hc])]
  rfl

theorem closed_close (s : Session) : s.close.closed = true := by
  cases hc : s.closed
  · rw [close_of_open hc, closed_stopStaged, closed_stopOutbox]
    exact closed_emptied s
  · rw [close, if_pos hc, hc]

variable {p : Event → Prop} {r s t u : Session}

namespace Keeps

theorem refl (s : Session) : Keeps p s s := ⟨rfl, ⟨[], by simp, rfl⟩, fun h => ⟨h, rfl⟩, id⟩

theorem trans (h : Keeps p s t) (h' : Keeps p t u) : Keeps p s u where
  works := h'.works.trans h.works
  trace := by
    obtain ⟨es, hes, ht⟩ := h.trace
    obtain ⟨es', hes', hu⟩ := h'.trace
    refine ⟨es' ++ es, fun e he => ?_, by rw [hu, ht, List.append_assoc]⟩
    exact (List.mem_append.1 he).elim (hes' e) (hes e)
  running hu := by
    obtain ⟨ht, hst⟩ := h'.running hu
    obtain ⟨hs, hss⟩ := h.running ht
    exact ⟨hs, hst.trans hss⟩
  placed := h'.placed ∘ h.placed

/-- A change that shows in nothing that is kept. -/
theorem of_eq (h : Keeps p s t) (hw : u.works = t.works) (ht : u.trace = t.trace)
    (hc : u.closed = t.closed) (hst : u.staged.state = t.staged.state) (hcalls : u.calls = t.calls) :
    Keeps p s u where
  works := hw.trans h.works
  trace := ht ▸ h.trace
  running hu := by
    obtain ⟨hs, hss⟩ := h.running (hc ▸ hu)
    exact ⟨hs, hst.trans hss⟩
  placed hs := by
    rw [Session.Placed, hcalls]
    exact h.placed hs

/-! ### Small changes -/

theorem note (h : Keeps p s t) {e : Event} (he : p e) : Keeps p s (t.note e) :=
  h.trans ⟨rfl, ⟨[e], by simpa using he, rfl⟩, fun h => ⟨h, rfl⟩, id⟩

theorem wake (h : Keeps p s t) (fibers : List Fiber) : Keeps p s (t.wake fibers) :=
  h.of_eq rfl rfl rfl rfl rfl

theorem setTimer (h : Keeps p s t) (fiber : Fiber) : Keeps p s (t.setTimer fiber) :=
  h.of_eq rfl rfl rfl rfl rfl

theorem changeConn (h : Keeps p s t) (n : Nat) (change : Conn → Conn × List Fiber) :
    Keeps p s (t.changeConn n change) := by
  unfold Session.changeConn
  split
  · exact h
  · exact h.of_eq rfl rfl rfl rfl rfl

theorem setRegistry (h : Keeps p s t) (registry : Registry Nat) : Keeps p s { t with registry } :=
  h.of_eq rfl rfl rfl rfl rfl

theorem shutConn (h : Keeps p s t) (n : Nat) : Keeps p s (t.shutConn n) := h.changeConn n _

/-- A frame that is queued is recorded, and nothing else that is kept changes. -/
theorem posted {out : Outgoing} (hp : t.post out = some u) : Keeps p (t.note (.queued out)) u := by
  unfold Session.post at hp
  split at hp
  · cases hp
  · obtain ⟨⟨outbox, woken⟩, -, rfl⟩ := Option.map_eq_some_iff.1 hp
    exact (refl (t.note (.queued out))).of_eq rfl rfl rfl rfl rfl

theorem post (h : Keeps p s t) {out : Outgoing} (hp : t.post out = some u) (he : p (.queued out)) :
    Keeps p s u := (h.note he).trans (posted hp)

theorem trace_eq (h : Keeps (fun _ => False) s t) : t.trace = s.trace := by
  obtain ⟨es, hes, ht⟩ := h.trace
  obtain rfl : es = [] := List.eq_nil_iff_forall_not_mem.2 hes
  exact ht

/-- What is recorded on both sides. -/
theorem noted (h : Keeps (fun _ => False) s t) (e : Event) : Keeps (fun _ => False) (s.note e) (t.note e) where
  works := h.works
  trace := ⟨[], by simp, congrArg (e :: ·) h.trace_eq⟩
  running := h.running
  placed := h.placed

theorem postOrDrop (h : Keeps p s t) {out : Outgoing} (he : p (.queued out)) :
    Keeps p s (t.postOrDrop out) := by
  unfold Session.postOrDrop
  cases hp : t.post out with
  | none => exact h
  | some u => exact h.post hp he

/-- The stages at which it matters what a call asks for are set by calls that ask for it. -/
theorem setStage (h : Keeps p s t) (k : Nat) (stage : CallStage)
    (hstage : ∀ c, t.calls[k]? = some c → Call.Placed { c with stage }) :
    Keeps p s (t.setStage k stage) where
  works := by
    rw [← h.works]
    have hsame : (t.setStage k stage).calls.map Call.request = t.calls.map Call.request := by
      apply List.ext_getElem?
      intro j
      simp only [Session.setStage, List.getElem?_map, List.getElem?_modify]
      cases t.calls[j]? <;> simp
      split <;> rfl
    exact congrArg (fun requests => { t.works with requests }) hsame
  trace := h.trace
  running := h.running
  placed hs c hc := by
    obtain ⟨j, hj⟩ := List.mem_iff_getElem?.1 hc
    simp only [Session.setStage, List.getElem?_modify] at hj
    obtain ⟨d, hd, hj⟩ := Option.map_eq_some_iff.1 hj
    have hplaced := h.placed hs d (List.mem_of_getElem? hd)
    split at hj
    · rename_i hk
      rw [← hj]
      exact hstage d (hk ▸ hd)
    · exact hj ▸ hplaced

theorem foldl_shutConn (h : Keeps p s t) (conns : List Nat) :
    Keeps p s (conns.foldl (fun t n => t.shutConn n) t) := by
  induction conns generalizing t with
  | nil => exact h
  | cons n conns ih => exact ih (h.shutConn n)

/-! ### Ends -/

/-- What has ended may have lost its staged connections. -/
theorem of_ended (h : Keeps p s t) (hw : u.works = t.works) (ht : u.trace = t.trace)
    (hcalls : u.calls = t.calls) (hu : u.closed = true) : Keeps p s u where
  works := hw.trans h.works
  trace := ht ▸ h.trace
  running hopen := by simp [hu] at hopen
  placed hs := by
    rw [Session.Placed, hcalls]
    exact h.placed hs

theorem stopOutbox (h : Keeps p s t) : Keeps p s t.stopOutbox := h.of_eq rfl rfl rfl rfl rfl

theorem stopStaged (h : Keeps p s t) (hc : t.closed = true) : Keeps p s t.stopStaged := by
  unfold Session.stopStaged
  refine Keeps.foldl_shutConn (Keeps.wake ?_ _) _
  exact h.of_ended rfl rfl rfl hc

theorem close (h : Keeps p s t) (he : p .closed) : Keeps p s t.close := by
  cases hc : t.closed
  · let marked : Session := { t with closed := true, registry := t.registry.close.1 }
    have hmarked : Keeps p s marked := h.of_ended rfl rfl rfl rfl
    have hemptied : Keeps p s t.emptied := (hmarked.note he).foldl_shutConn _
    rw [close_of_open hc]
    exact ((hemptied.wake _).stopOutbox).stopStaged ((closed_stopOutbox _).trans (closed_emptied t))
  · rw [Session.close, if_pos hc]
    exact h

theorem reap (h : Keeps p s t) (he : p .closed) : Keeps p s t.reap := by
  unfold Session.reap
  split
  · exact h
  · exact h.close he

theorem finish (h : Keeps p s t) {k : Nat} {outcome : Outcome} (hf : p (.finished k outcome))
    (hc : p .closed) : Keeps p s (t.finish k outcome) :=
  ((h.setStage k (.over outcome) fun _ _ => trivial).note hf).reap hc

/-! ### Connections -/

theorem closeConn (h : Keeps p s t) (n : Nat)
    (he : ∀ id, p (.queued { frame := .control .connClose id, conn := n })) :
    Keeps p s (t.closeConn n) := by
  unfold Session.closeConn
  split
  · exact h
  · split
    · exact h
    · have hstop := h.changeConn n fun c => { c with closed := true }.stopWindows
      dsimp only
      split
      · exact hstop.of_eq rfl rfl rfl rfl rfl
      · exact (hstop.postOrDrop (he _)).of_eq rfl rfl rfl rfl rfl

theorem reportCredit (h : Keeps p s t) (n : Nat)
    (he : ∀ id credit, p (.queued { frame := .sendOk id credit, conn := n })) :
    Keeps p s (t.reportCredit n) := by
  unfold Session.reportCredit
  split
  · exact h
  · split
    · exact h
    · split
      · exact h
      · exact (h.changeConn n _).postOrDrop (he _ _)

end Keeps

/-! ### Calls -/

/-- What a call records, but that it was given a connection. -/
def OfCall (k : Nat) (e : Event) : Prop := (Fiber.call k).Does e ∧ e.isBare = true

variable {k n : Nat}

theorem ofCall_finished {outcome : Outcome} (h : (Event.finished k outcome).isBare = true) :
    OfCall k (.finished k outcome) := ⟨by simp [Fiber.Does, Fiber.records], h⟩

theorem ofCall_data (id : Int32) (data : Bytes) (part : Bool) (conn call : Option Nat) :
    OfCall k (.queued { frame := .data id data part, conn, call }) := by
  cases part <;> exact ⟨rfl, rfl⟩

namespace Keeps

/-- A call ends, and is given no connection. -/
theorem endCall (h : Keeps (OfCall k) s t) {outcome : Outcome}
    (ho : (Event.finished k outcome).isBare = true) : Keeps (OfCall k) s (t.finish k outcome) :=
  h.finish (ofCall_finished ho) ⟨rfl, rfl⟩

theorem finishWrite (h : Keeps (OfCall k) s t) (n : Nat) {outcome : Outcome}
    (ho : (Event.finished k outcome).isBare = true) : Keeps (OfCall k) s (t.finishWrite k n outcome) := (h.changeConn n _).endCall ho

theorem leaveAccept (h : Keeps p s t) (k : Nat) : Keeps p s (t.leaveAccept k) :=
  h.of_eq (by rfl) (by rfl) (by rfl) (by rfl) (by rfl)

theorem requestUnder (drawn : Option (Int32 × IdSource))
    (hk : ∀ c, s.calls[k]? = some c → c.request = .openConn) :
    Keeps (OfCall k) s (s.requestUnder drawn k).1 := by
  unfold Session.requestUnder
  split
  · exact .refl s
  · dsimp only
    have hadd (id : Int32) (ids : IdSource) :
        Keeps (OfCall k) s (({ s with ids } : Session).addConn id (.awaited k)).1 :=
      (refl s).of_eq rfl rfl rfl rfl rfl
    split
    · exact endCall (hadd ..) rfl
    · split
      · exact endCall (hadd ..) rfl
      · rename_i t hp
        have hcalls : t.calls = s.calls := (calls_post hp).trans rfl
        refine setTimer (setStage (post (note (setRegistry (hadd ..) _) ?_) hp ?_) k _ fun c hc => ?_) _
        · exact ⟨rfl, rfl⟩
        · exact ⟨rfl, rfl⟩
        · exact hk c (hcalls ▸ hc)

theorem refuse (h : Keeps p s t) (n : Nat) : Keeps p s (t.refuse n) := by
  unfold Session.refuse
  split
  · exact h
  · exact (h.setRegistry _).shutConn n

theorem awaitData (n : Nat) (want : Want) : Keeps (OfCall k) s (s.awaitData k n want).1 := by
  unfold Session.awaitData
  split
  · exact .refl s
  · dsimp only
    split <;> dsimp only
    · exact (refl s).changeConn n _
    · exact ((((refl s).changeConn n _).note ⟨rfl, rfl⟩).reportCredit n fun _ _ => ⟨rfl, rfl⟩).endCall rfl

theorem awaitCredit (n : Nat) (data : Bytes) (written : Nat) :
    Keeps (OfCall k) s (s.awaitCredit k n data written).1 := by
  unfold Session.awaitCredit
  split
  · exact .refl s
  · dsimp only
    have hspent (outflow : Outflow Fiber) :
        Keeps (OfCall k) s (s.changeConn n fun c => ({ c with outflow }, [])) := (refl s).changeConn n _
    split
    · exact (hspent _).setStage k _ fun _ _ => trivial
    · exact (hspent _).finishWrite n rfl
    · unfold sendSegment
      dsimp only
      split <;> dsimp only
      · rename_i hp
        refine setStage (post (note (hspent _) ?_) hp (ofCall_data ..)) k _ fun _ _ => trivial
        exact ⟨rfl, rfl⟩
      · refine Keeps.finishWrite (note (hspent _) ?_) n rfl
        exact ⟨rfl, rfl⟩

theorem sendOn (n : Nat) (data : Bytes) (written : Nat) : Keeps (OfCall k) s (s.sendOn k n data written).1 := by
  unfold Session.sendOn
  split
  · exact .refl s
  · split
    · exact (refl s).finishWrite n rfl
    · split
      · exact (refl s).finishWrite n rfl
      · exact awaitCredit ..

theorem beginCall {c : Call} (hc : s.calls[k]? = some c) :
    Keeps (OfCall k) s (s.beginCall k c.request).1 := by
  have hown {request : Request} (hr : c.request = request) : ∀ d, s.calls[k]? = some d → d.request = request :=
    fun d hd => Option.some.inj (hd.symm.trans hc) ▸ hr
  unfold Session.beginCall
  split
  · rename_i hr
    split
    · exact (refl s).endCall rfl
    · exact requestUnder _ (hown hr)
  · rename_i hr
    split
    · exact (refl s).endCall rfl
    · refine setStage (t := { s with acceptLock := _ }) ?_ k .accepting (hown hr)
      exact (refl s).of_eq rfl rfl rfl rfl rfl
  · split
    · exact .refl s
    · split
      · exact (refl s).endCall rfl
      · exact (refl s).setStage k .reading fun _ _ => trivial
  · exact ((refl s).changeConn _ _).setStage k .inLine fun _ _ => trivial

theorem dropCall (c : Call) : Keeps (OfCall k) s (s.dropCall k c) := by
  have hdrop {t : Session} (h : Keeps (OfCall k) s t) : Keeps (OfCall k) s (t.setStage k .dropped).reap :=
    (h.setStage k .dropped fun _ _ => trivial).reap ⟨rfl, rfl⟩
  unfold Session.dropCall
  dsimp only
  split
  · exact hdrop ((refl s).leaveAccept k)
  · exact hdrop ((refl s).changeConn _ _)
  · exact hdrop (((refl s).changeConn _ _).changeConn _ _)
  · exact hdrop ((refl s).changeConn _ _)
  · exact hdrop ((refl s).changeConn _ _)
  · exact hdrop (refl s)

/-- A call ends with the outcome that it has recorded. -/
theorem given (k : Nat) (outcome : Outcome) (t : Session) :
    Keeps (OfCall k) (t.note (.finished k outcome)) (t.finish k outcome) :=
  ((refl (t.note (.finished k outcome))).setStage k (.over outcome) fun _ _ => trivial).reap ⟨rfl, rfl⟩

end Keeps

/-! ### Turns of calls -/

/-- What a turn of a call does to what is kept: an open may be given the connection it asked for, and an
accept the first of those that are ready. -/
inductive CallTurn (k : Nat) (s t : Session) : Prop
  | bare (keeps : Keeps (OfCall k) s t)
  | award (n : Nat) (asked : s.works.requests[k]? = some .openConn)
      (keeps : Keeps (OfCall k) (s.note (.finished k (.conn n))) t)
  | accept (n : Nat) (rest : List Nat) (asked : s.works.requests[k]? = some .accept)
      (published : s.published = n :: rest)
      (keeps : Keeps (OfCall k) (({ s with published := rest } : Session).note (.finished k (.conn n))) t)

theorem callTurn_awaitAnswer (asked : s.works.requests[k]? = some .openConn) (n : Nat) (due : Moment) :
    CallTurn k s (s.awaitAnswer k n due).1 := by
  unfold awaitAnswer
  split
  · exact .award n asked (.given k _ s)
  · exact .bare (((Keeps.refl s).refuse n).endCall rfl)
  · split
    · exact .bare ((Keeps.refl s).endCall rfl)
    · split
      · exact .bare ((Keeps.refl s).endCall rfl)
      · exact .bare (.refl s)
  · exact .bare ((Keeps.refl s).endCall rfl)

theorem callTurn_awaitConn (asked : s.works.requests[k]? = some .accept) :
    CallTurn k s (s.awaitConn k).1 := by
  unfold awaitConn
  split
  · rename_i n rest _ hp
    let taken : Session := { s with published := rest }
    have hwake : Keeps (OfCall k) (taken.note (.finished k (.conn n)))
        ((taken.wakeAcceptor.leaveAccept k).note (.finished k (.conn n))) := by
      unfold wakeAcceptor
      split <;> exact (Keeps.refl _).of_eq rfl rfl rfl rfl rfl
    exact .accept n rest asked hp (hwake.trans (.given k _ _))
  · split
    · exact .bare (((Keeps.refl s).leaveAccept k).endCall rfl)
    · exact .bare (.refl s)

theorem callTurn_continueCall (hp : s.Placed) {c : Call} (hc : s.calls[k]? = some c) (first : Bool) :
    CallTurn k s (s.continueCall first k c).1 := by
  have hplaced := hp c (List.mem_of_getElem? hc)
  have hasked {request : Request} (hr : c.request = request) : s.works.requests[k]? = some request := by
    simp [works, hc, hr]
  unfold continueCall
  split
  · rename_i hs
    rw [Call.Placed, hs] at hplaced
    split
    · exact .bare ((Keeps.refl s).endCall rfl)
    · exact callTurn_awaitAnswer (hasked hplaced) ..
  · rename_i hs
    rw [Call.Placed, hs] at hplaced
    split
    · exact .bare (((Keeps.refl s).leaveAccept k).endCall rfl)
    · exact callTurn_awaitConn (hasked hplaced)
  · exact .bare (.awaitData ..)
  · split
    · exact .bare ((Keeps.refl s).setStage k (.sending 0) fun _ _ => trivial)
    · exact .bare (.refl s)
  · exact .bare (.sendOn ..)
  · exact .bare (.awaitCredit ..)
  · exact .bare (.refl s)

theorem callTurn_cases (hp : s.Placed) (first : Bool) (k : Nat) : CallTurn k s (s.callTurn first k).1 := by
  unfold callTurn
  split
  · exact .bare (.refl s)
  · rename_i c hc
    split
    · exact .bare (.refl s)
    · split
      · exact .bare (.dropCall c)
      · split
        · exact .bare (.beginCall hc)
        · exact callTurn_continueCall hp hc first

/-! ### The writer -/

/-- What a turn of the writer does to what is kept: it waits, ends with the session, takes the next frame,
which may be one that cannot be written, or hands bytes to the link. -/
inductive WriterTurn (s t : Session) : Prop
  | rest (keeps : Keeps (fun _ => False) s t)
  | stop (ended : t.closed = true) (keeps : Keeps (· = .closed) { s with writer := .over } t)
  | begin (out : Outgoing) (lanes : Lanes Outgoing) (bytes : Bytes) (idle : s.writer = .idle)
      (take : s.outbox.state.take = (lanes, some out))
      (fits : out.frame.encode s.settings.maxSegment = .ok bytes)
      (keeps : Keeps (fun _ => False) (({ s with writer := .writing bytes } : Session).note (.started out)) t)
  | balk (out : Outgoing) (lanes : Lanes Outgoing) (cause : FrameError) (idle : s.writer = .idle)
      (take : s.outbox.state.take = (lanes, some out))
      (fails : out.frame.encode s.settings.maxSegment = .error cause) (ended : t.closed = true)
      (keeps : Keeps (· = .closed) (({ s with writer := .over } : Session).note (.started out)) t)
  | write (chunk left : Bytes) (writing : s.writer = .writing (chunk ++ left))
      (keeps : Keeps (fun _ => False) (({ s with
        writer := if left = [] then .idle else .writing left
        outlet := { s.outlet with held := s.outlet.held ++ chunk } } : Session).note (.wrote chunk)) t)

theorem writerTurn_cases (h : s.view.Coherent) (first : Bool) : WriterTurn s (s.writerTurn first).1 := by
  have hend {t : Session} (ht : t.closed = true) (hk : Keeps (· = .closed) s t) : WriterTurn s t.endWriter :=
    .stop ht ⟨congrArg (fun w : Works => { w with writer := .over }) hk.works, hk.trace, hk.running, hk.placed⟩
  unfold writerTurn
  split
  · exact .rest (.refl s)
  · rename_i idle
    split
    · rename_i hclosed
      exact hend hclosed (.refl s)
    · unfold nextFrame
      rcases hp : s.outbox.pop .writer with ⟨outbox, _ | _ | out⟩
      · simp only [hp]
        exact .rest ((Keeps.refl s).of_eq rfl rfl rfl rfl rfl)
      · have hclosed : s.closed = true := h.outbox.symm.trans (Queue.stopped_of_pop hp)
        simp only [hp]
        exact hend (t := { s with outbox }) hclosed ((Keeps.refl s).of_eq rfl rfl rfl rfl rfl)
      · obtain ⟨-, ht⟩ := Queue.take_of_pop hp
        simp only [hp]
        split
        · rename_i bytes hfits
          exact .begin out _ bytes idle ht hfits ((Keeps.refl _).of_eq rfl rfl rfl rfl rfl)
        · rename_i cause hfails
          have hclose : Keeps (· = .closed) (({ s with outbox } : Session).note (.started out))
              (({ s with outbox } : Session).note (.started out)).close := (Keeps.refl _).close rfl
          refine .balk out _ cause idle ht hfails (closed_close _) ?_
          exact ⟨congrArg (fun w : Works => { w with writer := .over }) hclose.works, hclose.trace,
            hclose.running, hclose.placed⟩
  · rename_i rest writing
    split
    · rename_i hclosed
      exact hend hclosed.1 (.refl s)
    · dsimp only [writeSome]
      split
      · exact hend (closed_close s) ((Keeps.refl s).close rfl)
      · split
        · split
          · rename_i hclosed
            exact hend hclosed (.refl s)
          · exact .rest (.refl s)
        · refine .write (s.outlet.accepted rest) (rest.drop (s.outlet.accepted rest).length) ?_ (.refl _)
          rw [Outlet.accepted_append, writing]

/-! ### The reader -/

/-- What the reader records once it has a frame that asks for no connection. -/
def OfHearing (e : Event) : Prop := Fiber.reader.Does e ∧ e.dispatched? = none ∧ e.staged? = none

/-- What is recorded when a frame is brought to the connection it is for. -/
def OfRouting : Event → Prop
  | .routed _ _ | .buffered _ _ => True
  | .queued out => out.frame.flag = .connClose
  | _ => False

theorem OfRouting.ofHearing {e : Event} (h : OfRouting e) : OfHearing e := by
  cases e with
  | queued out => exact ⟨by simp [Fiber.Does, Fiber.records, show out.frame.flag = _ from h, Fiber.queues], rfl, rfl⟩
  | routed | buffered => exact ⟨rfl, rfl, rfl⟩
  | _ => cases h

theorem Keeps.route (h : Keeps p s t) (hp : ∀ e, OfRouting e → p e) (f : Frame) : Keeps p s (t.route f) := by
  have hpush {u : Session} (h : Keeps p s u) (n : Nat) (data : Bytes) (part : Bool) :
      Keeps p s (u.pushSegment n data part) := by
    unfold pushSegment
    split
    · exact h
    · split
      · exact h.closeConn n fun _ => hp _ rfl
      · exact (h.changeConn n _).note (hp _ trivial)
  unfold Session.route
  split
  · exact h
  · rename_i n _
    have hnote := h.note (e := .routed n f) (hp _ trivial)
    unfold applyFrame
    split
    · exact hpush hnote ..
    · exact hpush hnote ..
    · exact hnote.changeConn n _
    · exact hnote.changeConn n _
    · exact hnote.changeConn n _
    · exact hnote.changeConn n _
    · exact hnote

/-- What a turn of the reader does to what is kept: it acts on no frame, on a frame that asks for a
connection, in an open session or too late, or on another one. -/
inductive ReaderTurn (s t : Session) : Prop
  | quiet (keeps : Keeps (· = .closed) s t)
  | heard (f : Frame) (hf : f.flag ≠ .newConn)
      (keeps : Keeps OfHearing (({ s with idleTicks := 0 } : Session).note (.dispatched f)) t)
  | asked (f : Frame) (hf : f.flag = .newConn) (staged : Queue Fiber Nat) (woken : List Fiber)
      (push : s.staged.push .normal s.conns.length = some (staged, woken))
      (keeps : Keeps (fun _ => False)
        ((({ s with idleTicks := 0, staged } : Session).note (.dispatched f)).note (.staged s.conns.length)) t)
  | late (f : Frame) (hf : f.flag = .newConn) (push : s.staged.push .normal s.conns.length = none)
      (keeps : Keeps (fun _ => False)
        ((({ s with idleTicks := 0 } : Session).note (.dispatched f)).note (.staged s.conns.length)) t)

theorem stage_of_push {id : Int32} {staged : Queue Fiber Nat} {woken : List Fiber}
    (h : s.staged.push .normal s.conns.length = some (staged, woken)) :
    s.stage id = ({ (s.addConn id .unasked).1.note (.staged s.conns.length) with staged } : Session).wake woken := by
  simp [stage, addConn, note, h]

theorem stage_of_stopped {id : Int32} (h : s.staged.push .normal s.conns.length = none) :
    s.stage id = ((s.addConn id .unasked).1.note (.staged s.conns.length)).shutConn s.conns.length := by
  simp [stage, addConn, note, h]

theorem readerTurn_receive (f : Frame) (rest : Bytes) (s : Session) :
    ReaderTurn s (({ s with inlet := { s.inlet with bytes := rest } } : Session).receive f) := by
  let heard : Session := (({ s with
    inlet := { s.inlet with bytes := rest }
    throughput := s.throughput.add f.bytes.length
    idleTicks := 0
    reader := .between } : Session).note (.dispatched f))
  have hheard : Keeps OfHearing (({ s with idleTicks := 0 } : Session).note (.dispatched f)) heard :=
    (Keeps.refl _).of_eq rfl rfl rfl rfl rfl
  by_cases hf : f.flag = .newConn
  · have hstage : ({ s with inlet := { s.inlet with bytes := rest } } : Session).receive f = heard.stage f.id := by
      unfold receive dispatch
      simp only [hf]
      rfl
    rw [hstage]
    cases hpush : s.staged.push .normal s.conns.length with
    | some pushed =>
      obtain ⟨staged, woken⟩ := pushed
      refine .asked f hf staged woken hpush ?_
      rw [stage_of_push (s := heard) hpush]
      exact (Keeps.refl _).of_eq rfl rfl rfl rfl rfl
    | none =>
      refine .late f hf hpush ?_
      rw [stage_of_stopped (s := heard) hpush]
      refine Keeps.shutConn ?_ _
      exact (Keeps.refl _).of_eq rfl rfl rfl rfl rfl
  · refine .heard f hf ?_
    unfold receive dispatch
    dsimp only
    split
    · exact absurd ‹_› hf
    · exact hheard.postOrDrop ⟨rfl, rfl, rfl⟩
    · exact hheard.of_eq rfl rfl rfl rfl rfl
    · exact hheard
    · exact hheard
    · exact hheard.route (fun _ he => he.ofHearing) f

/-- A turn of the reader keeps what is kept, or the reader has read a frame and acts on it. -/
theorem readerTurn_receives (first : Bool) (s : Session) :
    Keeps (· = .closed) s (s.readerTurn first).1 ∨
    ∃ d f rest, s.reader = .reading d ∧ d.run s.settings.maxSegment s.inlet.bytes = .frame f rest ∧
      (s.readerTurn first).1 = ({ s with inlet := { s.inlet with bytes := rest } } : Session).receive f := by
  have hclose {t : Session} (h : Keeps (· = .closed) s t) : Keeps (· = .closed) s t.close.endReader :=
    (h.close rfl).of_eq rfl rfl rfl rfl rfl
  unfold readerTurn
  split
  · exact .inl (.refl s)
  · split
    · exact .inl ((Keeps.refl s).of_eq rfl rfl rfl rfl rfl)
    · exact .inl ((Keeps.refl s).of_eq rfl rfl rfl rfl rfl)
  · rename_i d hreader
    split
    · exact .inl ((Keeps.refl s).of_eq rfl rfl rfl rfl rfl)
    · unfold readSome
      split
      · rename_i hrun
        exact .inr ⟨d, _, _, hreader, hrun, rfl⟩
      · exact .inl (hclose ((Keeps.refl s).of_eq rfl rfl rfl rfl rfl))
      · dsimp only
        split
        · exact .inl ((Keeps.refl s).of_eq rfl rfl rfl rfl rfl)
        · split
          · exact .inl (hclose ((Keeps.refl s).of_eq rfl rfl rfl rfl rfl))
          · exact .inl ((Keeps.refl s).of_eq rfl rfl rfl rfl rfl)
  · split
    · exact .inl ((Keeps.refl s).of_eq rfl rfl rfl rfl rfl)
    · unfold handPong
      split
      · exact .inl ((Keeps.refl s).of_eq rfl rfl rfl rfl rfl)
      · split
        · exact .inl ((Keeps.refl s).of_eq rfl rfl rfl rfl rfl)
        · exact .inl (.refl s)

theorem readerTurn_cases (first : Bool) (s : Session) : ReaderTurn s (s.readerTurn first).1 := by
  rcases readerTurn_receives first s with keeps | ⟨-, f, rest, -, -, hturn⟩
  · exact .quiet keeps
  · exact hturn ▸ readerTurn_receive f rest s

/-! ### The pings -/

theorem Keeps.sendPing (h : Keeps Fiber.pinger.Does s t) : Keeps Fiber.pinger.Does s t.sendPing := by
  unfold Session.sendPing
  refine postOrDrop ?_ ?_
  · exact h.of_eq rfl rfl rfl rfl rfl
  · exact rfl

/-- A turn of the pinger changes nothing that is kept but its own stage and the counters. -/
theorem keeps_pingerTurn (s : Session) : ∃ pinger misses idleTicks,
    Keeps Fiber.pinger.Does { s with pinger, misses, idleTicks } s.pingerTurn.1 := by
  have hawait {t u : Session} (due : Moment) (h : Keeps Fiber.pinger.Does t u) :
      Keeps Fiber.pinger.Does { t with pinger := .waiting due } (u.awaitTick due) :=
    ⟨congrArg (fun w : Works => { w with pinger := .waiting due }) h.works, h.trace, h.running, h.placed⟩
  unfold pingerTurn
  split
  · exact ⟨s.pinger, s.misses, s.idleTicks, .refl s⟩
  · exact ⟨_, s.misses, s.idleTicks, hawait _ (Keeps.refl s).sendPing⟩
  · split
    · exact ⟨.over, s.misses, s.idleTicks, .refl _⟩
    · split
      · unfold tick
        let counted : Session := { s with misses := s.countTick.misses, idleTicks := s.countTick.idleTicks }
        have hcount : Keeps Fiber.pinger.Does counted s.countTick := (Keeps.refl counted).note (e := .ticked) rfl
        dsimp only
        split
        · refine ⟨.over, s.countTick.misses, s.countTick.idleTicks, ?_⟩
          have h := hcount.close rfl
          exact ⟨congrArg (fun w : Works => { w with pinger := .over }) h.works, h.trace, h.running, h.placed⟩
        · exact ⟨_, _, _, hawait (t := counted) _ hcount.sendPing⟩
      · exact ⟨s.pinger, s.misses, s.idleTicks, .refl s⟩

theorem keeps_handlePong (payload : Bytes) (rest : List Bytes) (s : Session) :
    Keeps (fun _ => False) (({ s with misses := 0 } : Session).note (.returned payload)) (s.handlePong payload rest) := by
  have hwake : Keeps (fun _ => False) (({ s with misses := 0 } : Session).note (.returned payload))
      ((({ s with pongs := rest, misses := 0 } : Session).wakeReader).note (.returned payload)) := by
    unfold wakeReader
    split <;> exact (Keeps.refl _).of_eq rfl rfl rfl rfl rfl
  unfold handlePong measure
  split
  · exact hwake
  · dsimp only
    split
    · exact hwake.of_eq rfl rfl rfl rfl rfl
    · exact hwake.of_eq rfl rfl rfl rfl rfl

/-- A turn of the loop of returned pings handles one, or nothing. -/
theorem returnsTurn_cases (first : Bool) (s : Session) :
    Keeps (fun _ => False) s (s.returnsTurn first).1 ∨ ∃ payload,
      Keeps (fun _ => False) (({ s with misses := 0 } : Session).note (.returned payload)) (s.returnsTurn first).1 := by
  unfold returnsTurn
  split
  · exact .inl (.refl s)
  · split
    · exact .inl ((Keeps.refl s).of_eq rfl rfl rfl rfl rfl)
    · split
      · exact .inr ⟨_, keeps_handlePong ..⟩
      · split
        · exact .inl ((Keeps.refl s).of_eq rfl rfl rfl rfl rfl)
        · exact .inl (.refl s)

/-! ### The acceptor -/

theorem registry_post {out : Outgoing} (h : s.post out = some t) : t.registry = s.registry :=
  (congrArg View.registry (view_post h).2).trans (View.post_registry ..)

/-- What a turn of the acceptor does to what is kept: it waits or ends, decides on the first of the staged
connections, or makes a registered one ready and confirms it, for which it may be too late. -/
inductive AcceptorTurn (s t : Session) : Prop
  | rest (full : ∀ n, s.acceptor = .publishing n → s.settings.backlog ≤ s.published.length)
      (keeps : Keeps (fun _ => False) s t)
  | stop (ended : s.closed = true) (staged : Queue Fiber Nat)
      (keeps : Keeps (fun _ => False) { s with acceptor := .over, staged } t)
  | enter (n : Nat) (c : Conn) (staged : Queue Fiber Nat) (idle : s.acceptor = .idle)
      (running : s.closed = false) (take : s.staged.state.take = (staged.state, some n))
      (conn : s.conns[n]? = some c) (free : s.registry.get? c.id = none)
      (entered : t.registry.get? c.id = some n)
      (keeps : Keeps (fun _ => False) ((({ s with acceptor := .publishing n, staged } : Session).note
        (.registered n)).note (.decided n true)) t)
  | turnAway (n : Nat) (c : Conn) (staged : Queue Fiber Nat) (idle : s.acceptor = .idle)
      (running : s.closed = false) (take : s.staged.state.take = (staged.state, some n))
      (conn : s.conns[n]? = some c) (taken : (s.registry.get? c.id).isSome = true)
      (registry : t.registry = s.registry) (others : ∀ k, k ≠ n → t.conns[k]? = s.conns[k]?)
      (keeps : Keeps (fun _ => False) ((({ s with staged } : Session).note (.decided n false)).note
        (.queued { frame := .control .newConnFail c.id, conn := n })) t)
  | publish (n : Nat) (c : Conn) (publishing : s.acceptor = .publishing n) (conn : s.conns[n]? = some c)
      (room : s.published.length < s.settings.backlog) (running : s.closed = false)
      (keeps : Keeps (fun _ => False) ((({ s with
        acceptor := .idle, published := s.published ++ [n] } : Session).note (.published n)).note
        (.queued { frame := .control .newConnOk c.id, conn := n })) t)
  | late (n : Nat) (staged : Queue Fiber Nat) (publishing : s.acceptor = .publishing n)
      (room : s.published.length < s.settings.backlog) (ended : s.closed = true)
      (keeps : Keeps (fun _ => False) (({ s with
        acceptor := .over, published := s.published ++ [n], staged } : Session).note (.published n)) t)

theorem acceptorTurn_decideConn (h : s.view.Coherent) (idle : s.acceptor = .idle) (running : s.closed = false)
    {staged : Queue Fiber Nat} (take : s.staged.state.take = (staged.state, some n)) :
    AcceptorTurn s (({ s with staged } : Session).decideConn n).1 := by
  obtain ⟨c, hc⟩ : ∃ c, s.conns[n]? = some c := by
    have hn : n < s.view.faces.length := h.staged_lt n (by
      rw [show s.view.staged = s.staged.state from rfl, Lanes.toList_of_take take]
      exact List.mem_cons_self)
    exact ⟨_, List.getElem?_eq_getElem (by simpa [view] using hn)⟩
  have hopen : s.registry.closed = false := h.registry.trans running
  have hget : s.registry.get? c.id = s.registry.lookup c.id := by simp [Registry.get?, hopen]
  have hc' : ({ s with staged } : Session).conns[n]? = some c := hc
  unfold decideConn
  simp only [hc']
  cases hinsert : s.registry.insertNew c.id n with
  | some registry =>
    have hfree : s.registry.lookup c.id = none := by
      cases hl : s.registry.lookup c.id with
      | none => rfl
      | some m => simp [Registry.insertNew, hl] at hinsert
    refine .enter n c staged idle running take hc (hget.trans hfree) ?_ ((Keeps.refl _).of_eq rfl rfl rfl rfl rfl)
    show registry.get? c.id = some n
    rw [Registry.get?, (View.closed_of_insertNew hinsert).2, if_neg (by simp),
      Registry.lookup_insertNew hinsert, if_pos rfl]
  | none =>
    have htaken : (s.registry.get? c.id).isSome = true := by
      rw [hget]
      simpa [Registry.insertNew, hopen, Option.isSome_iff_ne_none] using hinsert
    let turned : Session := (({ s with staged } : Session).shutConn n).note (.decided n false)
    have hkept : Keeps (fun _ => False) (({ s with staged } : Session).note (.decided n false)) turned :=
      ((Keeps.refl _).shutConn n).noted _
    have hco : turned.view.Coherent := by
      have hv : turned.view = ({ s.view with staged := staged.state } : View).setFace n c.face.shut := by
        rw [view_note, if_neg (by simp [Event.isTraffic]), view_shutConn hc']
        rfl
      rw [hv]
      exact View.Coherent.setFace (h.popStaged running take) _ _
    have hshut : turned.registry = s.registry ∧ turned.conns = s.conns.set n c.shutdown.1 := by
      simp [turned, shutConn, changeConn, hc, note, wake]
    show AcceptorTurn s (turned.postOrDrop _)
    unfold postOrDrop
    cases hp : turned.post { frame := .control .newConnFail c.id, conn := n } with
    | none =>
      have hclosed : turned.closed = true := closed_of_post hco hp
      have hsame : turned.closed = s.closed := by simp [turned, note, closed_shutConn]
      rw [hsame, running] at hclosed
      cases hclosed
    | some t =>
      refine .turnAway n c staged idle running take hc htaken ?_ (fun k hk => ?_)
        ((hkept.noted _).trans (.posted hp))
      · exact (registry_post hp).trans hshut.1
      · show t.conns[k]? = s.conns[k]?
        rw [conns_post hp, hshut.2, List.getElem?_set_ne (Ne.symm hk)]

theorem acceptorTurn_publish (h : s.view.Coherent) (publishing : s.acceptor = .publishing n) :
    AcceptorTurn s (s.publish n).1 := by
  obtain ⟨c, hc⟩ : ∃ c, s.conns[n]? = some c := by
    have hn : n < s.view.faces.length := h.publishing_lt n publishing
    exact ⟨_, List.getElem?_eq_getElem (by simpa [view] using hn)⟩
  unfold publish
  split
  · rename_i room
    let made : Session := (({ s with published := s.published ++ [n] } : Session).note (.published n)).wake
      ((s.acceptLock.holder.map Fiber.call).toList)
    dsimp only
    split
    · rename_i d hd
      obtain rfl : c = d := Option.some.inj (hc.symm.trans hd)
      show AcceptorTurn s (made.confirm n c.id).1
      unfold confirm
      cases hp : made.post { frame := .control .newConnOk c.id, conn := n } with
      | some t =>
        have hopen : s.closed = false := (view_post hp).1
        have hmade := Keeps.posted (p := fun _ => False) hp
        refine .publish n c publishing hc room hopen ?_
        exact ⟨congrArg (fun w : Works => { w with acceptor := .idle }) hmade.works, hmade.trace,
          hmade.running, hmade.placed⟩
      | none =>
        have hco : made.view.Coherent := by
          have hv : made.view = { s.view with published := s.published ++ [n] } := by
            rw [view_wake, view_note]
            rfl
          rw [hv]
          exact h.frame rfl rfl rfl rfl rfl (Nat.le_refl _)
        have hclosed : made.closed = true := closed_of_post hco hp
        exact .late n _ publishing room hclosed ((Keeps.refl _).of_eq rfl rfl rfl rfl rfl)
    · rename_i hnone
      cases hc.symm.trans hnone
  · rename_i full
    split
    · rename_i hclosed
      exact .stop hclosed _ (.refl _)
    · refine .rest (fun m hm => ?_) (.refl s)
      exact Nat.le_of_not_lt full

theorem acceptorTurn_cases (h : s.view.Coherent) (first : Bool) : AcceptorTurn s (s.acceptorTurn first).1 := by
  have hrest {t : Session} (hp : ∀ n, s.acceptor ≠ .publishing n) (keeps : Keeps (fun _ => False) s t) :
      AcceptorTurn s t := .rest (fun n hn => absurd hn (hp n)) keeps
  unfold acceptorTurn
  split
  · rename_i hover
    exact hrest (by simp [hover]) (.refl s)
  · rename_i idle
    split
    · rename_i hclosed
      exact .stop hclosed _ (.refl _)
    · rename_i hopen
      unfold nextStaged
      rcases hp : s.staged.pop .acceptor with ⟨staged, _ | _ | n⟩ <;> simp only [hp]
      · have hs : staged.state = s.staged.state := Queue.state_of_pop hp (by simp)
        exact hrest (by simp [idle]) ((Keeps.refl s).of_eq rfl rfl rfl hs rfl)
      · exact .stop (h.staged.symm.trans (Queue.stopped_of_pop hp)) _ (.refl _)
      · exact acceptorTurn_decideConn h idle (by simpa using hopen) (Queue.take_of_pop hp).2
  · rename_i n publishing
    split
    · rename_i hclosed
      exact .stop hclosed.1 _ (.refl _)
    · exact acceptorTurn_publish h publishing

end Session

end StreamMux
