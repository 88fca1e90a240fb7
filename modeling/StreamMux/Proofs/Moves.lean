import StreamMux.Proofs.Loops

/-! The turns of the calls, the moves of the user and those of the link come down to steps of the view,
and so does every run. -/

namespace StreamMux

open View (Step Steps)

namespace Session

variable {s s' : Session} {may : View → Nat → Prop}

/-! ### Open -/

theorem steps_requestUnder (h : s.view.Coherent) (hopen : s.closed = false) {call : Nat} {c : Call}
    (hc : s.calls[call]? = some c) (hr : c.request = .openConn) (hs : c.stage = .fresh)
    {id : Int32} (hpos : 0 < id) (hfree : s.registry.contains id = false) (ids : IdSource) :
    Steps may s.view (s.requestUnder (some (id, ids)) call).1.view := by
  have hrc : s.registry.closed = false := h.registry.trans hopen
  have hlook : s.registry.lookup id = none := by
    simpa [Registry.contains, Registry.get?, hrc] using hfree
  let n := s.conns.length
  let registry := { s.registry with entries := s.registry.entries ++ [(id, n)] }
  have hins : s.registry.insertNew id n = some registry := by
    simp [registry, Registry.insertNew, hrc, hlook]
  let t := (({ (({ s with ids } : Session).addConn id (.awaited call)).1 with
    registry } : Session).note (.registered n))
  have hvt : t.view = { s.view.addFace (.make s.view.settings id (.awaited call)) with
      registry := { s.view.registry with
        entries := s.view.registry.entries ++ [(id, s.view.faces.length)] } } := by
    simp only [t]
    rw [view_note, if_neg (by simp [Event.isTraffic])]
    simp [n, registry, addConn, view, View.addFace]
  have hco : t.view.Coherent := by
    rw [hvt]
    exact { h.addFace _ with
      registry := h.registry
      no_entries := fun he => absurd (hopen.symm.trans he) Bool.false_ne_true }
  have hdo (due : Moment) : Step may s.view ((t.view.post
      { frame := .control .newConn id, conn := some n }).setStage call (.answering n due)) := by
    rw [hvt]
    have hn : n = s.view.faces.length := by simp [n, view]
    rw [hn]
    exact .request due (by simp [hc, hr, hs]) hopen hpos hlook
  simp only [requestUnder, addConn]
  split
  · rename_i hnone
    exact absurd (hnone.symm.trans hins) (by simp)
  · rename_i registry' hsome
    obtain rfl : registry' = registry := Option.some.inj (hsome.symm.trans hins)
    split
    · rename_i hp
      exact absurd ((closed_of_post (s := t) hco hp).symm.trans hopen) (by simp)
    · rename_i t' hp
      obtain ⟨-, hv⟩ := view_post (s := t) hp
      rw [view_setTimer, view_setStage, hv]
      exact .single (hdo _)

theorem steps_request (h : s.view.Coherent) (hopen : s.closed = false) {call : Nat} {c : Call}
    (hc : s.calls[call]? = some c) (hr : c.request = .openConn) (hs : c.stage = .fresh) :
    Steps may s.view (s.request call).1.view := by
  rw [request]
  cases hdraw : s.ids.draw s.registry.contains with
  | none => exact .refl
  | some drawn =>
    obtain ⟨id, ids⟩ := drawn
    obtain ⟨hpos, hfree⟩ := IdSource.pos_and_free_of_draw hdraw
    exact steps_requestUnder h hopen hc hr hs hpos hfree ids

theorem view_refuse {n : Nat} {c : Conn} (hc : s.conns[n]? = some c) :
    (s.refuse n).view =
      ({ s.view with registry := (s.registry.delete c.id).1 } : View).setFace n c.face.shut := by
  simp only [refuse, hc]
  have hc' : ({ s with registry := (s.registry.delete c.id).1 } : Session).conns[n]? = some c := hc
  rw [view_shutConn hc']
  rfl

theorem steps_awaitAnswer (h : s.view.Coherent) {call n : Nat} {due : Moment} {c : Call}
    (hc : s.calls[call]? = some c) (hs : c.stage = .answering n due)
    (hmay : ∀ d, s.conns[n]? = some d → d.reply = .given false → may s.view n) :
    Steps may s.view (s.awaitAnswer call n due).1.view := by
  have asked : s.view.calls[call]? = some (c.request, .answering n due) := by simp [hc, hs]
  have hl : s.view.Loose call := loose_of_stage hc (by simp [hs])
  unfold awaitAnswer
  rcases hn : s.conns[n]? with _ | d
  · exact steps_finish_plain h hl rfl
  · have hf : s.view.faces[n]? = some d.face := by simp [hn]
    simp only [Option.map_some]
    split
    · rename_i hgiven
      exact .head (.award asked hf (Option.some.inj hgiven)) (steps_finish h call _)
    · rename_i hgiven
      have hrefuse : Step may s.view
          ((s.refuse n).view.setStage call (.over (.failed .connectionRefused))) :=
        view_refuse hn ▸ .refuse asked hf (Option.some.inj hgiven) (hmay d hn (Option.some.inj hgiven))
      have hco : (s.refuse n).view.Coherent := view_refuse hn ▸ h.delete _ _ (by simp)
      exact .head hrefuse (steps_finish hco call _)
    · split
      · exact steps_finish_plain h hl rfl
      · split
        · exact steps_finish_plain h hl rfl
        · exact .refl
    · exact steps_finish_plain h hl rfl

/-! ### Accept -/

@[simp] theorem view_wakeAcceptor (s : Session) : s.wakeAcceptor.view = s.view := by
  unfold wakeAcceptor
  split <;> rfl

@[simp] theorem view_leaveAccept (call : Nat) (s : Session) : (s.leaveAccept call).view = s.view := rfl

theorem steps_awaitConn (h : s.view.Coherent) {call : Nat} {c : Call}
    (hc : s.calls[call]? = some c) (hs : c.stage = .accepting) :
    Steps may s.view (s.awaitConn call).1.view := by
  have asked : s.view.calls[call]? = some (c.request, .accepting) := by simp [hc, hs]
  have hl : s.view.Loose call := loose_of_stage hc (by simp [hs])
  unfold awaitConn
  split
  · rename_i n rest _ hp
    let t := (({ s with published := rest } : Session).wakeAcceptor).leaveAccept call
    have hv : t.view = { s.view with published := rest } := by
      simp only [t, view_leaveAccept, view_wakeAcceptor]; rfl
    have hco : t.view.Coherent := hv ▸ h.frame rfl rfl rfl rfl rfl (Nat.le_refl _)
    refine .head ?_ (steps_finish hco call (.conn n))
    rw [hv]
    exact .accept asked hp
  · split
    · exact steps_finish_plain (s := s.leaveAccept call) h hl rfl
    · exact .refl

/-! ### Read -/

/-- What a reader took is reported in one step, or not at all. -/
theorem view_reportCredit (h : s.view.Coherent) {n : Nat} {c : Conn} (hc : s.conns[n]? = some c) :
    (s.reportCredit n).view = s.view ∨
      c.closed = false ∧ c.closing = false ∧ ∃ receive credit,
        c.inflow.state.takeCredit s.settings.maxSegment = (receive, some credit) ∧
        (s.reportCredit n).view = (s.view.setFace n { c.face with receive }).post
          { frame := .sendOk c.id credit, conn := some n } := by
  unfold reportCredit
  simp only [hc]
  split
  · exact .inl rfl
  · rename_i hopen
    rw [not_or, Bool.not_eq_true, Bool.not_eq_true] at hopen
    rcases ht : c.inflow.state.takeCredit s.settings.maxSegment with ⟨receive, _ | credit⟩
    · left
      simp only [Inflow.takeCredit, ht]
    · right
      refine ⟨hopen.1, hopen.2, receive, credit, rfl, ?_⟩
      simp only [Inflow.takeCredit, ht]
      have hv : (s.changeConn n fun d =>
          ({ d with inflow := { c.inflow with state := receive } }, [])).view =
          s.view.setFace n { c.face with receive } := view_changeConn hc _
      rw [view_postOrDrop (hv ▸ h.setFace _ _), hv]

theorem steps_awaitData (h : s.view.Coherent) {call n : Nat} {want : Want} {c : Call}
    (hc : s.calls[call]? = some c) (hr : c.request = .read n want) (hs : c.stage = .reading) :
    Steps may s.view (s.awaitData call n want).1.view := by
  have asked : s.view.calls[call]? = some (.read n want, .reading) := by simp [hc, hr, hs]
  unfold awaitData
  rcases hn : s.conns[n]? with _ | d
  · exact .refl
  · have hf : s.view.faces[n]? = some d.face := by simp [hn]
    rcases ht : d.inflow.take (.call call) want with ⟨inflow, _ | taken⟩
    · have hv : (s.changeConn n fun d => ({ d with inflow }, [])).view =
          s.view.setFace n { d.face with receive := inflow.state } := view_changeConn hn _
      simp only [ht, hv]
      rcases Monitor.state_of_poll_none ht with hstate | hlook
      · have : s.view.setFace n { d.face with receive := inflow.state } = s.view := by
          rw [hstate]
          exact View.setFace_self hf
        rw [this]
      · exact .single (.look hf hlook)
    · have hlook := Monitor.look_of_poll ht
      let t := (s.changeConn n fun d => ({ d with inflow }, [])).note (.handedOut n taken)
      have hv : t.view = (s.view.setFace n { d.face with receive := inflow.state }).note
          (.handedOut n taken) := by
        simp only [t, view_note, Event.isTraffic, ↓reduceIte]
        rw [view_changeConn hn]
        rfl
      have hco : t.view.Coherent := hv ▸ (h.setFace _ _).note _
      have hserve : Step may s.view (t.view.setStage call (.over (.taken taken))) := by
        rw [hv]
        exact .serve asked hf hlook
      have hct : t.conns[n]? = some { d with inflow } := by
        obtain ⟨hlt, rfl⟩ := List.getElem?_eq_some_iff.1 hn
        simp [t, changeConn, note, wake, hlt]
      simp only [ht]
      show Steps may s.view ((t.reportCredit n).finish call (.taken taken)).view
      refine .head hserve ?_
      rcases view_reportCredit hco hct with hsame | ⟨hclosed, hclosing, receive, credit, hcr, hrep⟩
      · rw [← hsame]
        exact steps_finish (hsame ▸ hco) call _
      · have asked' : (t.view.setStage call (.over (.taken taken))).calls[call]? =
            some (.read n want, .over (.taken taken)) := by
          have hcall : t.view.calls[call]? = some (.read n want, .reading) := by rw [hv]; exact asked
          simp [View.setStage, hcall]
        have hf' : (t.view.setStage call (.over (.taken taken))).faces[n]? =
            some { d.face with receive := inflow.state } := by
          show t.view.faces[n]? = _
          simp [hct, Conn.face]
        have hstep : Step may _ _ := .report asked' hf' hclosed hclosing hcr
        have hco' := hrep ▸ (hco.setFace _ _).post _
        refine .head hstep ?_
        have : Steps may _ _ := steps_finish hco' call (.taken taken)
        rw [hrep, ← View.post_setStage] at this
        exact this

/-! ### Write -/

@[simp] theorem view_leaveWrite (call n : Nat) (s : Session) : (s.leaveWrite call n).view = s.view :=
  view_changeConn_same (fun _ => rfl) s

theorem steps_finishWrite (h : s.view.Coherent) {call : Nat} (hl : s.view.Loose call) (n : Nat)
    {outcome : Outcome}
    (plain : (CallStage.over outcome).isPlain = true) :
    Steps may s.view (s.finishWrite call n outcome).view := by
  have hv : (s.leaveWrite call n).view = s.view := view_leaveWrite call n s
  rw [finishWrite, ← hv]
  exact steps_finish_plain (hv ▸ h) (hv ▸ hl) plain

theorem steps_awaitCredit (h : s.view.Coherent) {call n written : Nat} {data : Bytes} {c : Call}
    (hc : s.calls[call]? = some c) (hr : c.request = .write n data)
    (hs : c.stage = .sending written ∨ c.stage = .crediting written) :
    Steps may s.view (s.awaitCredit call n data written).1.view := by
  have asked : s.view.calls[call]? = some (.write n data, c.stage) := by simp [hc, hr]
  have hl : s.view.Loose call := loose_of_stage hc (by rcases hs with hs | hs <;> simp [hs])
  unfold awaitCredit
  rcases hn : s.conns[n]? with _ | d
  · exact .refl
  · have hf : s.view.faces[n]? = some d.face := by simp [hn]
    rcases ha : d.outflow.acquire (.call call) (min (data.length - written) s.settings.maxSegment)
      with ⟨outflow, answer⟩
    let t := s.changeConn n fun d => ({ d with outflow }, [])
    have hv : t.view = s.view.setFace n { d.face with send := outflow.state } := view_changeConn hn _
    have hco : t.view.Coherent := hv ▸ h.setFace _ _
    have hsame (hst : outflow.state = d.outflow.state) : t.view = s.view := by
      rw [hv, hst]
      exact View.setFace_self hf
    simp only [ha]
    rcases answer with _ | _ | credit
    · have hst : outflow.state = d.outflow.state := by
        rcases Monitor.state_of_poll_none ha with hst | hlook
        · exact hst
        · exact SendWindow.eq_of_acquire hlook (by simp)
      show Steps may s.view (t.setStage call (.crediting written)).view
      rw [view_setStage, hsame hst]
      exact .single (.goOn call _ rfl hl)
    · have hst : outflow.state = d.outflow.state :=
        SendWindow.eq_of_acquire (Monitor.look_of_poll ha) (by simp)
      show Steps may s.view (t.finishWrite call n _).view
      rw [← hsame hst]
      exact steps_finishWrite hco (hv ▸ hl) n rfl
    · have hlook := Monitor.look_of_poll ha
      have hv' : (t.note (.spent n call credit)).view = t.view := by simp [Event.isTraffic]
      show Steps may s.view (t.sendSegment call n d.id data written credit).1.view
      unfold sendSegment
      dsimp only
      split
      · rename_i t' hp
        obtain ⟨hopen, hpv⟩ := view_post hp
        have hopen : s.closed = false := by simpa [t, changeConn, hn, wake, note] using hopen
        rw [view_setStage, hpv, hv', hv]
        exact .single (.send asked hs hf hopen hlook)
      · rename_i hp
        have hclosed := closed_of_post (s := t.note (.spent n call credit)) (hv' ▸ hco) hp
        have hclosed : s.closed = true := by simpa [t, changeConn, hn, wake, note] using hclosed
        have hspent := hv'.trans hv
        have hwaste : Step may s.view (t.note (.spent n call credit)).view := hspent ▸ .waste hf hclosed hlook
        exact .head hwaste (steps_finishWrite (hv' ▸ hco) (hspent ▸ hl) n rfl)

theorem steps_sendOn (h : s.view.Coherent) {call n written : Nat} {data : Bytes} {c : Call}
    (hc : s.calls[call]? = some c) (hr : c.request = .write n data) (hs : c.stage = .sending written) :
    Steps may s.view (s.sendOn call n data written).1.view := by
  have hl : s.view.Loose call := loose_of_stage hc (by simp [hs])
  unfold sendOn
  rcases hn : s.conns[n]? with _ | d
  · exact .refl
  · dsimp only
    split
    · exact steps_finishWrite h hl n rfl
    · split
      · exact steps_finishWrite h hl n rfl
      · exact steps_awaitCredit h hc hr (.inl hs)

/-! ### Turns of calls -/

theorem loose_of_isOver {call : Nat} {c : Call} (hc : s.calls[call]? = some c)
    (hover : c.isOver = false) : s.view.Loose call := by
  refine loose_of_stage hc fun n hs => ?_
  rw [Call.isOver, hs] at hover
  cases hover

theorem steps_beginCall (h : s.view.Coherent) {call : Nat} {c : Call} (hc : s.calls[call]? = some c)
    (hs : c.stage = .fresh) : Steps may s.view (s.beginCall call c.request).1.view := by
  have hl : s.view.Loose call := loose_of_stage hc (by simp [hs])
  unfold beginCall
  split
  · rename_i hr
    split
    · exact steps_finish_plain h hl rfl
    · rename_i hopen
      exact steps_request h (by simpa using hopen) hc hr hs
  · split
    · exact steps_finish_plain h hl rfl
    · have hv : (({ s with acceptLock := s.acceptLock.request call } : Session).setStage call
          .accepting).view = s.view.setStage call .accepting := view_setStage _ _ _
      exact hv ▸ .single (.goOn call _ rfl hl)
  · split
    · exact .refl
    · split
      · exact steps_finish_plain h hl rfl
      · rw [view_setStage]
        exact .single (.goOn call _ rfl hl)
  · rw [view_setStage, view_changeConn_same (by intro c; rfl)]
    exact .single (.goOn call _ rfl hl)

/-- The connection that a turn gives up because the peer has refused it. -/
def refused? (fiber : Fiber) (first : Bool) (s : Session) : Option Nat :=
  match fiber with
  | .call k =>
    match s.calls[k]? with
    | some { stage := .answering n _, cancelled := false, .. } =>
      if s.closed ∧ first then none
      else if s.conns[n]?.map Conn.reply = some (.given false) then some n
      else none
    | _ => none
  | _ => none

theorem exists_of_refused? {fiber : Fiber} {first : Bool} {n : Nat}
    (h : s.refused? fiber first = some n) :
    ∃ k c due d, fiber = .call k ∧ s.calls[k]? = some c ∧ c.stage = .answering n due ∧
      c.cancelled = false ∧ ¬ (s.closed ∧ first) ∧ s.conns[n]? = some d ∧ d.reply = .given false := by
  unfold refused? at h
  split at h
  · rename_i k
    split at h
    · rename_i m due hk
      split at h
      · cases h
      · rename_i hsees
        split at h
        · rename_i hd
          cases h
          obtain ⟨d, hd, hgiven⟩ := Option.map_eq_some_iff.1 hd
          exact ⟨k, _, due, d, rfl, hk, rfl, rfl, hsees, hd, hgiven⟩
        · cases h
    · cases h
  · cases h

theorem steps_continueCall (h : s.view.Coherent) (first : Bool) {call : Nat} {c : Call}
    (hc : s.calls[call]? = some c) (hover : c.isOver = false) (hlive : c.isGivenUp = false)
    (hmay : ∀ n, s.refused? (.call call) first = some n → may s.view n) :
    Steps may s.view (s.continueCall first call c).1.view := by
  have hl : s.view.Loose call := loose_of_isOver hc hover
  unfold continueCall
  split
  · rename_i n due hs
    split
    · exact steps_finish_plain h hl rfl
    · rename_i hsees
      refine steps_awaitAnswer h hc hs fun d hd hgiven => hmay n ?_
      rw [Call.isGivenUp_of_not_sending (by simp [hs])] at hlive
      obtain ⟨request, stage, cancelled⟩ := c
      dsimp only at hs hlive
      subst hs hlive
      simp only [refused?, hc, if_neg hsees, hd, Option.map_some, hgiven, ↓reduceIte]
  · rename_i hs
    split
    · exact steps_finish_plain (s := s.leaveAccept call) h hl rfl
    · exact steps_awaitConn h hc hs
  · rename_i hs hr
    exact steps_awaitData h hc hr hs
  · split
    · rw [view_setStage]
      exact .single (.goOn call _ rfl hl)
    · exact .refl
  · rename_i hs hr
    exact steps_sendOn h hc hr hs
  · rename_i hs hr
    exact steps_awaitCredit h hc hr (.inr hs)
  · exact .refl

theorem steps_dropCall (h : s.view.Coherent) {call : Nat} (hl : s.view.Loose call) (c : Call) :
    Steps may s.view (s.dropCall call c).view := by
  -- Whatever the call gives back, the view keeps.
  have hdrop (t : Session) (ht : t.view = s.view) :
      Steps may s.view ((t.setStage call .dropped).reap).view := by
    have hco : (t.setStage call .dropped).view.Coherent := by
      rw [view_setStage, ht]; exact h.setStage _ _
    refine .head (.goOn call .dropped rfl hl) ?_
    rw [← ht, ← view_setStage]
    exact steps_reap hco
  unfold dropCall
  apply hdrop
  split
  · rfl
  · exact view_changeConn_same (fun _ => rfl) s
  · rw [view_leaveWrite]
    exact view_changeConn_same (fun _ => rfl) s
  · exact view_leaveWrite ..
  · exact view_leaveWrite ..
  · rfl

theorem steps_callTurn (h : s.view.Coherent) (first : Bool) (call : Nat)
    (hmay : ∀ n, s.refused? (.call call) first = some n → may s.view n) :
    Steps may s.view (s.callTurn first call).1.view := by
  unfold callTurn
  split
  · exact .refl
  · rename_i c hc
    split
    · exact .refl
    · rename_i hover
      have hover : c.isOver = false := by simpa using hover
      split
      · exact steps_dropCall h (loose_of_isOver hc hover) c
      · rename_i hlive
        split
        · rename_i hs
          exact steps_beginCall h hc hs
        · exact steps_continueCall h first hc hover (by simpa using hlive) hmay

/-! ### Moves -/

theorem steps_turn (h : s.view.Coherent) (first : Bool) (fiber : Fiber)
    (hmay : ∀ n, s.refused? fiber first = some n → may s.view n) :
    Steps may s.view (s.turn first fiber).1.view := by
  cases fiber with
  | writer => exact steps_writerTurn h first
  | reader => exact steps_readerTurn h first
  | acceptor => exact steps_acceptorTurn h first
  | pinger => exact steps_pingerTurn h
  | returns =>
    show Steps may s.view (s.returnsTurn first).1.view
    rw [view_returnsTurn]
  | call k => exact steps_callTurn h first k hmay

theorem steps_takeTurn (h : s.view.Coherent) (fiber : Fiber) (first : Bool)
    (hmay : ∀ n, s.refused? fiber first = some n → may s.view n) :
    Steps may s.view (s.takeTurn fiber first).1.view :=
  steps_turn (s := { s with ready := s.ready.erase fiber }) h first fiber hmay

/-- A fiber that goes on after its turn is the next to run. -/
theorem run_eq (fiber : Fiber) (first : Bool) (s : Session) :
    s.run fiber first = if (s.takeTurn fiber first).2 then (s.takeTurn fiber first).1.goOn fiber
      else (s.takeTurn fiber first).1 := by
  unfold run
  split <;> rename_i ht <;> rw [ht] <;> rfl

theorem view_run (fiber : Fiber) (first : Bool) (s : Session) :
    (s.run fiber first).view = (s.takeTurn fiber first).1.view := by
  rw [run_eq]
  split <;> rfl

theorem owns_view {n : Nat} (h : s.owns n = true) : s.view.Owns n := by
  obtain ⟨c, hc, hs⟩ := List.any_eq_true.1 h
  exact ⟨(c.request, c.stage), List.mem_map_of_mem hc, by simpa using hs⟩

theorem view_wakeReading (s : Session) : s.wakeReading.view = s.view := by
  unfold wakeReading
  split <;> rfl

theorem view_wakeWriting (s : Session) : s.wakeWriting.view = s.view := by
  unfold wakeWriting
  split <;> rfl

theorem view_deliver (bytes : Bytes) (s : Session) : (s.deliver bytes).view = s.view := by
  rw [deliver, view_wakeReading, view_note, if_neg (by simp [Event.isTraffic])]
  rfl

theorem view_endInput (ending : Ending) (s : Session) : (s.endInput ending).view = s.view := by
  rw [endInput, view_wakeReading]; rfl

theorem view_takeOutput (count : Nat) (s : Session) : (s.takeOutput count).view = s.view := by
  rw [takeOutput, view_wakeWriting]; rfl

theorem view_resizeOutput (capacity : Option Nat) (s : Session) :
    (s.resizeOutput capacity).view = s.view := by
  rw [resizeOutput, view_wakeWriting]; rfl

theorem view_breakOutput (s : Session) : s.breakOutput.view = s.view := by
  rw [breakOutput, view_wakeWriting]; rfl

theorem view_cancel (call : Nat) (s : Session) : (s.cancel call).view = s.view := by
  unfold cancel
  split
  · rfl
  · split
    · rfl
    · rw [view_wake]
      simp only [view, View.mk.injEq, true_and, and_true]
      apply List.ext_getElem?
      intro k
      simp only [List.getElem?_map, List.getElem?_modify]
      cases s.calls[k]? with
      | none => rfl
      | some c =>
        simp only [Option.map_some]
        split <;> rfl

theorem steps_ask (request : Request) (h : s.ask request = some s') : Steps may s.view s'.view := by
  unfold ask at h
  split at h
  · rename_i hmay
    cases h
    have hv : (({ s with calls := s.calls ++ [({ request } : Call)] } : Session).wake
        [.call s.calls.length]).view =
        { s.view with calls := s.view.calls ++ [(request, .fresh)] } := by
      simp [view, wake]
    rw [hv]
    refine .single (.ask request fun n hn => ?_)
    cases request <;> simp only [Request.conn?, Option.some.injEq, reduceCtorEq] at hn
    all_goals subst hn; exact owns_view hmay
  · cases h

/-- A move comes down to steps. -/
theorem steps_of_move? (h : s.view.Coherent) {m : Move} (hm : s.move? m = some s')
    (hmay : ∀ fiber first n, m = .run fiber first → s.refused? fiber first = some n →
      may s.view n) :
    Steps may s.view s'.view := by
  cases m with
  | ask request => exact steps_ask request hm
  | cancel call => cases hm; rw [view_cancel]
  | close =>
    simp only [move?, close?] at hm
    split at hm
    · split at hm
      · cases hm
      · cases hm; exact steps_close h
    · cases hm
  | dropHandle =>
    simp only [move?] at hm
    split at hm
    · cases hm
      exact steps_reap (s := { s with handle := false }) h
    · cases hm
  | closeConn n =>
    simp only [move?] at hm
    split at hm
    · rename_i hown
      cases hm
      rw [view_closeConn h]
      exact .single (.leave n (owns_view hown))
    · cases hm
  | deliver bytes => cases hm; rw [view_deliver]
  | endInput ending => cases hm; rw [view_endInput]
  | takeOutput count => cases hm; rw [view_takeOutput]
  | resizeOutput capacity => cases hm; rw [view_resizeOutput]
  | breakOutput => cases hm; rw [view_breakOutput]
  | advance span => cases hm; exact .refl
  | run fiber first =>
    simp only [move?] at hm
    split at hm
    · cases hm
      rw [view_run]
      exact steps_takeTurn h fiber first fun n => hmay fiber first n rfl
    · cases hm

theorem coherent_start (settings : Settings) (kind : LinkKind) (address : Option String)
    (capacity : Option Nat) (wall : Stamp) :
    (start settings kind address capacity wall).view.Coherent where
  registry := rfl
  outbox := rfl
  staged := rfl
  no_entries _ := rfl
  no_frames _ := rfl
  no_staged _ := rfl
  staged_lt _ h := by cases h
  publishing_lt _ h := by cases h

/-- A run comes down to steps. -/
theorem Reachable.steps {init : Session} (h : init.view.Coherent) (hr : Reachable init s) :
    Steps (fun _ _ => True) init.view s.view := by
  induction hr with
  | refl => exact .refl
  | move m _ hm ih =>
    exact ih.trans (steps_of_move? (ih.coherent h) hm fun _ _ _ _ _ => trivial)

/-- A session that runs ran before the move. -/
theorem running_of_move {m : Move} (h : s.view.Coherent) (hm : s.move? m = some t) (ht : t.closed = false) :
    s.closed = false := by
  have hsteps := (Reachable.refl.move m hm).steps h
  refine Bool.eq_false_iff.2 fun hc => ?_
  rw [show t.closed = true from hsteps.closed_mono hc] at ht
  cases ht

end Session

end StreamMux
