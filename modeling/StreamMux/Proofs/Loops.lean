import StreamMux.Proofs.Turns

/-! The turns of the five loops come down to steps of the view. -/

namespace StreamMux

open View (Step Steps)

namespace Session

variable {s s' : Session} {may : View → Nat → Prop}

/-! ### The writer and the reader -/

theorem steps_nextFrame (h : s.view.Coherent) : Steps may s.view s.nextFrame.1.view := by
  unfold nextFrame
  rcases hp : s.outbox.pop .writer with ⟨outbox, _ | _ | out⟩
  · have hs : outbox.state = s.outbox.state := Queue.state_of_pop hp (by simp)
    have hv : ({ s with outbox } : Session).view = s.view := by simp only [view, hs]
    simp only [hp, hv]
    exact .refl
  · have hs : outbox.state = s.outbox.state := Queue.state_of_pop hp (by simp)
    have hv : ({ s with outbox } : Session).endWriter.view = s.view := by
      simp only [view, endWriter, Monitor.leave, hs]
    simp only [hp, hv]
    exact .refl
  · obtain ⟨hs, ht⟩ := Queue.take_of_pop hp
    have hopen : s.closed = false := h.outbox.symm.trans hs
    have hv : (({ s with outbox } : Session).note (.started out)).view =
        ({ s.view with outbox := outbox.state } : View).note (.started out) := by
      rw [view_note]; rfl
    have hstart : Step may s.view (({ s with outbox } : Session).note (.started out)).view :=
      hv ▸ .start hopen ht
    simp only [hp]
    split
    · exact .single hstart
    · exact .head hstart (steps_close (hstart.coherent h))

theorem steps_writerTurn (h : s.view.Coherent) (first : Bool) :
    Steps may s.view (s.writerTurn first).1.view := by
  unfold writerTurn
  split
  · exact .refl
  · split
    · exact .refl
    · exact steps_nextFrame h
  · split
    · exact .refl
    · rename_i rest _ _
      dsimp only [writeSome]
      split
      · exact steps_close h
      · split
        · split <;> exact .refl
        · rw [view_note]; exact .refl

theorem steps_readerTurn (h : s.view.Coherent) (first : Bool) :
    Steps may s.view (s.readerTurn first).1.view := by
  unfold readerTurn
  split
  · exact .refl
  · split <;> exact .refl
  · rename_i decoder _
    split
    · exact .refl
    · unfold readSome
      split
      · rename_i f rest _
        exact .single (step_dispatch (s := { s with
          inlet := { s.inlet with bytes := rest }
          throughput := s.throughput.add f.bytes.length
          idleTicks := 0 }) h f)
      · rename_i rest _
        have hco : ({ s with inlet := { s.inlet with bytes := rest } } : Session).view.Coherent := h
        exact steps_close hco
      · rename_i decoder' _
        dsimp only
        split
        · exact .refl
        · split
          · have hco : ({ s with
                inlet := { s.inlet with bytes := [] }, reader := .reading decoder' } :
                Session).view.Coherent := h
            exact steps_close hco
          · exact .refl
  · split
    · exact .refl
    · unfold handPong
      split
      · exact .refl
      · split <;> exact .refl

/-! ### The acceptor -/

theorem steps_decideConn {lanes : Queue Fiber Nat} {n : Nat} (h : s.view.Coherent)
    (idle : s.acceptor = .idle) (hs : s.staged.state.stopped = false) (ht : s.staged.state.take = (lanes.state, some n)) :
    Steps may s.view (({ s with staged := lanes } : Session).decideConn n).1.view := by
  have hopen : s.closed = false := h.staged.symm.trans hs
  have hco : ({ s with staged := lanes } : Session).view.Coherent := h.popStaged hopen ht
  have hn : n < s.conns.length := by
    have := h.staged_lt n (by
      show n ∈ s.staged.state.toList
      rw [Lanes.toList_of_take ht]; exact List.mem_cons_self)
    simpa [view] using this
  obtain ⟨c, hc⟩ : ∃ c, s.conns[n]? = some c := ⟨_, List.getElem?_eq_getElem hn⟩
  have hf : s.view.faces[n]? = some c.face := by simp [hc]
  unfold decideConn
  simp only [hc]
  cases hr : s.registry.insertNew c.id n with
  | some registry =>
    simp only [view_note, Event.isTraffic, Bool.false_eq_true, ↓reduceIte]
    exact .single (.register hopen ht hf hr idle)
  | none =>
    have hc' : ({ s with staged := lanes } : Session).conns[n]? = some c := hc
    have hv : ((({ s with staged := lanes } : Session).shutConn n).note (.decided n false)).view =
        ({ s.view with staged := lanes.state } : View).setFace n c.face.shut := by
      rw [view_note, if_neg (by simp [Event.isTraffic]), view_shutConn hc']; rfl
    have hco' : ((({ s with staged := lanes } : Session).shutConn n).note
        (.decided n false)).view.Coherent := by
      rw [hv]; exact View.Coherent.setFace hco _ _
    simp only [view_postOrDrop hco', hv]
    exact .single (.turnAway hopen ht hf hr)

theorem steps_nextStaged (h : s.view.Coherent) (idle : s.acceptor = .idle) :
    Steps may s.view s.nextStaged.1.view := by
  unfold nextStaged
  rcases hp : s.staged.pop .acceptor with ⟨staged, _ | _ | n⟩
  · have hs : staged.state = s.staged.state := Queue.state_of_pop hp (by simp)
    have hv : ({ s with staged } : Session).view = s.view := by simp only [view, hs]
    simp only [hp, hv]
    exact .refl
  · have hs : staged.state = s.staged.state := Queue.state_of_pop hp (by simp)
    have hv : ({ s with staged } : Session).endAcceptor.view =
        { s.view with acceptor := .over } := by
      simp only [view, endAcceptor, Monitor.leave, hs]
    simp only [hp, hv]
    exact .single (.retire (h.staged.symm.trans (Queue.stopped_of_pop hp)))
  · obtain ⟨hs, ht⟩ := Queue.take_of_pop hp
    simp only [hp]
    exact steps_decideConn h idle hs ht

theorem steps_publish (h : s.view.Coherent) {n : Nat} (hp : s.acceptor = .publishing n) :
    Steps may s.view (s.publish n).1.view := by
  have hn : n < s.conns.length := by simpa [view] using h.publishing_lt n hp
  obtain ⟨c, hc⟩ : ∃ c, s.conns[n]? = some c := ⟨_, List.getElem?_eq_getElem hn⟩
  have hf : s.view.faces[n]? = some c.face := by simp [hc]
  have hpub (stage : AcceptorStage) (hstage : stage = if s.view.closed then .over else .idle) :
      Step may s.view (({ s.view with
        published := s.view.published ++ [n], acceptor := stage } : View).post
          { frame := .control .newConnOk c.face.id, conn := some n }) := by
    subst hstage
    exact .publish hp hf
  by_cases hroom : s.published.length < s.settings.backlog
  · let t := ((({ s with published := s.published ++ [n] } : Session).note (.published n)).wake
      ((s.acceptLock.holder.map Fiber.call).toList))
    have hvt : t.view = { s.view with published := s.published ++ [n] } := by
      rw [view_wake, view_note]; rfl
    have hco : t.view.Coherent := by
      rw [hvt]; exact h.frame rfl rfl rfl rfl rfl (Nat.le_refl _)
    have hct : t.conns[n]? = some c := hc
    have hpublish : s.publish n = t.confirm n c.id := by
      simp only [publish, if_pos hroom]
      split
      · rename_i d hd
        obtain rfl : c = d := Option.some.inj (hct.symm.trans hd)
        rfl
      · rename_i hnone
        cases hct.symm.trans hnone
    rw [hpublish, confirm]
    cases hpost : t.post { frame := .control .newConnOk c.id, conn := n } with
    | some t' =>
      obtain ⟨hopen, hv⟩ := view_post hpost
      have hopen : s.view.closed = false := hopen
      have : ({ t' with acceptor := .idle } : Session).view =
          ({ s.view with published := s.view.published ++ [n], acceptor := .idle } : View).post
            { frame := .control .newConnOk c.face.id, conn := some n } := by
        have : ({ t' with acceptor := .idle } : Session).view = { t'.view with acceptor := .idle } := rfl
        rw [this, hv, hvt]
        simp only [View.post, hopen]
        rfl
      exact this ▸ .single (hpub .idle (by rw [hopen]; rfl))
    | none =>
      have hclosed : s.view.closed = true := closed_of_post (s := t) hco hpost
      have : t.endAcceptor.view =
          ({ s.view with published := s.view.published ++ [n], acceptor := .over } : View).post
            { frame := .control .newConnOk c.face.id, conn := some n } := by
        rw [View.post_of_closed _ (by exact hclosed)]
        have : t.endAcceptor.view = { t.view with acceptor := .over } := rfl
        rw [this, hvt]
        rfl
      exact this ▸ .single (hpub .over (by rw [hclosed]; rfl))
  · rw [publish, if_neg hroom]
    split
    · rename_i hclosed
      exact .single (.retire hclosed)
    · exact .refl

theorem steps_acceptorTurn (h : s.view.Coherent) (first : Bool) :
    Steps may s.view (s.acceptorTurn first).1.view := by
  unfold acceptorTurn
  split
  · exact .refl
  · rename_i idle
    split
    · rename_i hclosed
      exact .single (.retire hclosed)
    · exact steps_nextStaged h idle
  · rename_i n hp
    split
    · rename_i hclosed
      exact .single (.retire hclosed.1)
    · exact steps_publish h hp

/-! ### The pings -/

theorem step_sendPing (h : s.view.Coherent) : Step may s.view s.sendPing.view := by
  have hco : s.readWall.1.view.Coherent := h
  unfold sendPing
  simp only [view_postOrDrop hco]
  exact .ping _

theorem steps_pingerTurn (h : s.view.Coherent) : Steps may s.view s.pingerTurn.1.view := by
  unfold pingerTurn
  split
  · exact .refl
  · exact .single (step_sendPing h)
  · split
    · exact .refl
    · split
      · have hv : s.countTick.view = s.view := by
          rw [countTick, view_note]; rfl
        have hco : s.countTick.view.Coherent := hv ▸ h
        dsimp only [tick]
        rw [← hv]
        split
        · exact steps_close hco
        · exact .single (step_sendPing hco)
      · exact .refl

theorem view_handlePong (payload : Bytes) (rest : List Bytes) (s : Session) :
    (s.handlePong payload rest).view = s.view := by
  have hmeasure (t : Session) : (t.measure payload).view = t.view := by
    unfold measure
    split
    · rfl
    · dsimp only; split <;> rfl
  have hwake (t : Session) : t.wakeReader.view = t.view := by
    unfold wakeReader
    split <;> rfl
  rw [handlePong, hmeasure, view_note, if_neg (by simp [Event.isTraffic]), hwake]
  rfl

theorem view_returnsTurn (first : Bool) (s : Session) : (s.returnsTurn first).1.view = s.view := by
  unfold returnsTurn
  split
  · rfl
  · split
    · rfl
    · split
      · exact view_handlePong _ _ s
      · split <;> rfl

end Session

end StreamMux
