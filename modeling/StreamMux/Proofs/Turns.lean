import StreamMux.Proofs.Step

/-! Every move of a session comes down to steps of its view. The functions of the session are followed
one by one, each from the view before it to the view after it. -/

namespace StreamMux

open View (Step Steps)

namespace Session

variable {s s' : Session} {may : View → Nat → Prop}

/-! ### Views -/

@[simp] theorem view_note (e : Event) (s : Session) :
    (s.note e).view = if e.isTraffic then s.view.note e else s.view := by
  cases h : e.isTraffic <;> simp [view, note, View.note, h]

@[simp] theorem view_wake (fibers : List Fiber) (s : Session) : (s.wake fibers).view = s.view := rfl

@[simp] theorem view_setTimer (fiber : Fiber) (s : Session) : (s.setTimer fiber).view = s.view := rfl

@[simp] theorem view_faces_getElem? (s : Session) (n : Nat) :
    s.view.faces[n]? = s.conns[n]?.map Conn.face := by
  simp [view]

@[simp] theorem view_calls_getElem? (s : Session) (k : Nat) :
    s.view.calls[k]? = s.calls[k]?.map fun c => (c.request, c.stage) := by
  simp [view]

@[simp] theorem view_setStage (call : Nat) (stage : CallStage) (s : Session) :
    (s.setStage call stage).view = s.view.setStage call stage := by
  simp only [view, setStage, View.setStage, View.mk.injEq, true_and, and_true]
  apply List.ext_getElem?
  intro k
  simp only [List.getElem?_map, List.getElem?_modify]
  cases s.calls[k]? <;> simp
  split <;> rfl

theorem view_changeConn {n : Nat} {c : Conn} (h : s.conns[n]? = some c)
    (change : Conn → Conn × List Fiber) :
    (s.changeConn n change).view = s.view.setFace n (change c).1.face := by
  simp [changeConn, h, view, View.setFace, wake, List.map_set]

/-- A change that shows nowhere. -/
theorem view_changeConn_same {n : Nat} {change : Conn → Conn × List Fiber}
    (h : ∀ c, (change c).1.face = c.face) (s : Session) : (s.changeConn n change).view = s.view := by
  cases hc : s.conns[n]? with
  | none => simp [changeConn, hc]
  | some c =>
    rw [view_changeConn hc, h, View.setFace_self (by simp [hc])]

@[simp] theorem addConn_snd (id : Int32) (reply : Reply) (s : Session) :
    (s.addConn id reply).2 = s.view.faces.length := by
  simp [addConn, view]

/-! ### Posting -/

theorem view_post {out : Outgoing} (h : s.post out = some s') :
    s.closed = false ∧ s'.view = s.view.post out := by
  unfold post at h
  split at h
  · cases h
  · rename_i hopen
    have hopen : s.closed = false := by simpa using hopen
    obtain ⟨⟨outbox, woken⟩, hp, rfl⟩ := Option.map_eq_some_iff.1 h
    obtain ⟨lanes, hl, hm⟩ := Option.map_eq_some_iff.1 hp
    refine ⟨hopen, ?_⟩
    have hl' : s.outbox.state.push out.lane out = some lanes := hl
    have hstate : outbox.state = lanes := by
      have := congrArg (fun p => p.1.state) hm
      exact this.symm
    simp [view, View.post, hopen, hl', hstate, note, wake, List.filter_cons, Event.isTraffic]

theorem closed_of_post (h : s.view.Coherent) {out : Outgoing} (hp : s.post out = none) :
    s.closed = true := by
  cases hc : s.closed
  · obtain ⟨lanes, hl, -⟩ := h.push hc out.lane out
    have hl' : s.outbox.state.push (if out.frame.flag.isPriority then .priority else .normal) out =
      some lanes := hl
    simp [post, hc, Queue.push, hl'] at hp
  · rfl

theorem view_postOrDrop (h : s.view.Coherent) (out : Outgoing) :
    (s.postOrDrop out).view = s.view.post out := by
  unfold postOrDrop
  cases hp : s.post out with
  | some s' => exact (view_post hp).2
  | none =>
    have hc : s.view.closed = true := closed_of_post h hp
    rw [Option.getD_none, View.post_of_closed _ hc]

/-! ### Closing -/

theorem view_closeConn (h : s.view.Coherent) (n : Nat) : (s.closeConn n).view = s.view.closeConn n := by
  unfold closeConn View.closeConn
  rw [view_faces_getElem?]
  cases hc : s.conns[n]? with
  | none => rfl
  | some c =>
    simp only [Option.map_some]
    by_cases hclosed : c.closed
    · simp [hclosed, Conn.face]
    · have hv : (s.changeConn n fun c => { c with closed := true }.stopWindows).view =
          s.view.setFace n c.face.close := by
        rw [view_changeConn hc]; rfl
      have hco : (s.changeConn n fun c => { c with closed := true }.stopWindows).view.Coherent := by
        rw [hv]; exact h.setFace _ _
      have hface : c.face.closed = false := by simpa [Conn.face] using hclosed
      simp only [hclosed, hface, Bool.false_eq_true, ↓reduceIte]
      by_cases hclosing : c.closing
      · have hcl : c.face.closing = true := hclosing
        simp only [hclosing, ↓reduceIte, View.sayClosed, hcl]
        exact congrArg (fun v : View => { v with registry := (v.registry.delete c.id).1 }) hv
      · have hcl : c.face.closing = false := by simpa [Conn.face] using hclosing
        simp only [hclosing, Bool.false_eq_true, ↓reduceIte, View.sayClosed, hcl]
        refine (congrArg (fun v : View => { v with registry := (v.registry.delete c.id).1 })
          ((view_postOrDrop hco _).trans (congrArg (View.post _) hv))).trans ?_
        rw [View.post_setFace]
        simp [View.setFace, Conn.face]

theorem view_shutConn {n : Nat} {c : Conn} (h : s.conns[n]? = some c) :
    (s.shutConn n).view = s.view.setFace n c.face.shut := by
  rw [shutConn, view_changeConn h, Conn.face_shutdown]

/-- Connections that are closed one after the other are closed all together. -/
theorem view_foldl_shutConn (conns : List Nat) (s : Session) :
    (conns.foldl (fun s n => s.shutConn n) s).view = s.view.shutAll conns := by
  induction conns generalizing s with
  | nil => simp
  | cons n conns ih =>
    rw [List.foldl_cons, ih]
    cases hc : s.conns[n]? with
    | none =>
      rw [View.shutAll_cons_none (by simp [hc])]
      simp [shutConn, changeConn, hc]
    | some c => rw [view_shutConn hc, View.shutAll_cons (f := c.face) (by simp [hc])]

theorem view_stopOutbox (s : Session) :
    s.stopOutbox.view = { s.view with outbox := { stopped := true } } := rfl

theorem view_stopStaged (s : Session) :
    s.stopStaged.view = { s.view.shutAll s.view.staged.toList with staged := { stopped := true } } := by
  unfold stopStaged
  rw [view_foldl_shutConn]
  rfl

theorem view_close (h : s.view.Coherent) (hopen : s.closed = false) : s.close.view = s.view.close := by
  have hr : s.registry.closed = false := h.registry.trans hopen
  simp only [close, hopen, Bool.false_eq_true, ↓reduceIte, Registry.close, hr]
  rw [view_stopStaged, view_stopOutbox, view_wake, view_foldl_shutConn, view_note]
  simp only [Event.isTraffic, Bool.false_eq_true, ↓reduceIte]
  have hf := View.shutAll_append (s.registry.entries.map (·.2)) s.staged.state.toList s.view
  exact congrArg (fun v : View => { v with
    closed := true
    registry := { entries := [], closed := true }
    outbox := { stopped := true }
    staged := { stopped := true } }) hf.symm

/-! ### Ends -/

theorem steps_close (h : s.view.Coherent) : Steps may s.view s.close.view := by
  cases hc : s.closed
  · rw [view_close h hc]
    exact .single (.close hc)
  · rw [close, if_pos hc]

theorem steps_reap (h : s.view.Coherent) : Steps may s.view s.reap.view := by
  unfold reap
  split
  · exact .refl
  · exact steps_close h

/-- The end of a call, once its outcome is in place. -/
theorem steps_finish (h : s.view.Coherent) (call : Nat) (outcome : Outcome) :
    Steps may (s.view.setStage call (.over outcome)) (s.finish call outcome).view := by
  have hv : ((s.setStage call (.over outcome)).note (.finished call outcome)).view =
      s.view.setStage call (.over outcome) := by
    simp [Event.isTraffic]
  rw [finish, ← hv]
  exact steps_reap (hv ▸ h.setStage _ _)

theorem loose_of_stage {call : Nat} {c : Call} (hc : s.calls[call]? = some c)
    (hs : ∀ n, c.stage ≠ .over (.conn n)) : s.view.Loose call := by
  intro request n h
  rw [view_calls_getElem?, hc] at h
  exact hs n (Prod.mk.inj (Option.some.inj h)).2

/-- A call ends without a connection or data. -/
theorem steps_finish_plain (h : s.view.Coherent) {call : Nat} (hl : s.view.Loose call)
    {outcome : Outcome} (plain : (CallStage.over outcome).isPlain = true) : Steps may s.view (s.finish call outcome).view :=
  .head (.goOn call _ plain hl) (steps_finish h call outcome)

/-! ### Frames that come in -/

theorem view_addressee (id : Int32) (s : Session) : s.view.addressee id = s.addressee id := by
  have hregistry : s.view.registry.get? id = s.registry.get? id := rfl
  unfold View.addressee addressee
  rw [hregistry]
  cases s.registry.get? id with
  | none => rfl
  | some n =>
    simp only [view_faces_getElem?]
    cases s.conns[n]? <;> rfl

theorem step_stage (h : s.view.Coherent) {f : Frame} (hflag : f.flag = .newConn) :
    Step may s.view ((s.note (.dispatched f)).stage f.id).view := by
  cases hc : s.closed
  · have hs : s.staged.state.stopped = false := h.staged.trans hc
    have hv : ((s.note (.dispatched f)).stage f.id).view =
        (({ s.view.addFace (.make s.view.settings f.id .unasked) with
          staged := { s.view.staged with normal := s.view.staged.normal ++ [s.view.faces.length] } }).note
            (.dispatched f)).note (.staged s.view.faces.length) := by
      simp [stage, addConn, Queue.push, Lanes.push, note, hs, view, View.note, View.addFace, wake,
        Monitor.tellOne, List.filter_cons, Event.isTraffic]
    rw [hv]
    exact .stage hflag hc
  · have hs : s.staged.state.stopped = true := h.staged.trans hc
    let t : Session := (((s.note (.dispatched f)).addConn f.id .unasked).1).note (.staged s.conns.length)
    have hstage : (s.note (.dispatched f)).stage f.id = t.shutConn s.conns.length := by
      simp [t, stage, addConn, Queue.push, Lanes.push, note, hs]
    have hget : t.conns[s.conns.length]? = some (.make s.settings f.id .unasked) := by
      simp [t, addConn, note]
    have hview : t.view = ((s.view.addFace (.make s.view.settings f.id .unasked)).note
        (.dispatched f)).note (.staged s.view.faces.length) := by
      simp [t, addConn, note, view, View.note, View.addFace, List.filter_cons, Event.isTraffic]
    have hv : ((s.note (.dispatched f)).stage f.id).view =
        ((s.view.addFace (Face.make s.view.settings f.id .unasked).shut).note
          (.dispatched f)).note (.staged s.view.faces.length) := by
      rw [hstage, view_shutConn hget, hview]
      simp [View.setFace, View.note, View.addFace, view]
    rw [hv]
    exact .stageLate hflag hc

theorem exists_of_addressee {id : Int32} {n : Nat} (h : s.view.addressee id = some n) :
    ∃ c, s.conns[n]? = some c := by
  rw [view_addressee, addressee] at h
  split at h
  · cases h
  · split at h
    · cases h
    · rename_i c hc
      split at h
      · cases h
      · cases h; exact ⟨c, hc⟩

/-- A segment is taken or closes the connection. -/
theorem step_pushSegment {t : Session} {f : Frame} {n : Nat} {c : Conn} {data : Bytes} {part : Bool}
    (h : t.view.Coherent) (hv : t.view = (s.view.note (.dispatched f)).note (.routed n f))
    (hc : t.conns[n]? = some c) (hf : s.view.faces[n]? = some c.face)
    (hto : s.view.addressee f.id = some n) (hseg : View.IsSegment f data part) :
    Step may s.view (t.pushSegment n data part).view := by
  unfold pushSegment
  rw [hc]
  cases hw : c.inflow.state.write c.id data part with
  | error cause =>
    have hw' : c.inflow.write c.id data part = .error cause := by rw [Inflow.write, hw]; rfl
    simp only [hw']
    rw [view_closeConn h, hv]
    exact .overflow hseg hto hf hw
  | ok receive =>
    have hw' : c.inflow.write c.id data part = .ok (c.inflow.tellOne receive) := by
      rw [Inflow.write, hw]; rfl
    simp only [hw']
    rw [view_note, view_changeConn hc, hv]
    exact .enter hseg hto hf hw

/-- A frame reaches the connection it is for, or is dropped. -/
theorem step_route (h : s.view.Coherent) {f : Frame} (hconn : f.flag ≠ .newConn)
    (hping : f.flag ≠ .ping) (hpong : f.flag ≠ .pingReturn) :
    Step may s.view ((s.note (.dispatched f)).route f).view := by
  have hto : (s.note (.dispatched f)).addressee f.id = s.view.addressee f.id := by
    rw [view_addressee]; rfl
  unfold route
  rw [hto]
  cases ha : s.view.addressee f.id with
  | none =>
    have hv : (s.note (.dispatched f)).view = s.view.note (.dispatched f) := by simp [Event.isTraffic]
    exact hv ▸ .discard hconn fun _ _ => ha
  | some n =>
    obtain ⟨c, hc⟩ := exists_of_addressee ha
    have hf : s.view.faces[n]? = some c.face := by simp [hc]
    have hv : ((s.note (.dispatched f)).note (.routed n f)).view =
        (s.view.note (.dispatched f)).note (.routed n f) := by simp [Event.isTraffic]
    have hco := hv ▸ (h.note (.dispatched f)).note (.routed n f)
    have hc' : ((s.note (.dispatched f)).note (.routed n f)).conns[n]? = some c := hc
    simp only [applyFrame]
    split
    · rename_i data hflag hp
      exact step_pushSegment hco hv hc' hf ha ⟨hflag, hp⟩
    · rename_i data hflag hp
      exact step_pushSegment hco hv hc' hf ha ⟨hflag, hp⟩
    · rename_i hflag
      rw [view_changeConn hc', hv, Conn.face_answer]
      exact Step.answer hflag ha hf
    · rename_i hflag
      rw [view_changeConn hc', hv, Conn.face_answer]
      exact Step.answer hflag ha hf
    · rename_i hflag
      rw [view_changeConn hc', hv, Conn.face_grant]
      exact .grant hflag ha hf
    · rename_i hflag
      rw [view_changeConn hc', hv, Conn.face_closeByPeer]
      exact .farewell hflag ha hf
    · rename_i h₁ h₂ h₃ h₄ h₅ h₆
      rw [hv]
      have hdata : f.flag.isData = true ∧ f.payload = none := by
        cases hfl : f.flag <;> cases hp : f.payload <;> simp_all [Flag.isData]
      exact .hollow hdata.1 hdata.2 ha

theorem step_dispatch (h : s.view.Coherent) (f : Frame) : Step may s.view (s.dispatch f).view := by
  unfold dispatch
  have hco : ({ s with reader := .between } : Session).view.Coherent := h
  have hv : (({ s with reader := .between } : Session).note (.dispatched f)).view =
      s.view.note (.dispatched f) := by
    rw [view_note]; rfl
  dsimp only
  split
  · rename_i hflag
    exact step_stage hco hflag
  · rename_i payload hflag hp
    rw [view_postOrDrop (hv ▸ h.note _), hv]
    exact .echo hflag hp
  · rename_i payload hflag hp
    have : Step may s.view (s.view.note (.dispatched f)) :=
      .discard (by simp [hflag]) fun _ hne => absurd hflag hne
    exact hv ▸ this
  · rename_i hflag hp
    have : Step may s.view (s.view.note (.dispatched f)) :=
      .discard (by simp [hflag]) fun hne _ => absurd hflag hne
    exact hv ▸ this
  · rename_i hflag hp
    have : Step may s.view (s.view.note (.dispatched f)) :=
      .discard (by simp [hflag]) fun _ hne => absurd hflag hne
    exact hv ▸ this
  · rename_i h₁ h₂ h₃ h₄ h₅
    refine step_route hco ?_ ?_ ?_
    · exact h₁
    · intro hflag
      cases hp : f.payload <;> simp_all
    · intro hflag
      cases hp : f.payload <;> simp_all

end Session

end StreamMux
