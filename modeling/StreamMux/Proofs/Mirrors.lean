import StreamMux.Proofs.History
import StreamMux.Session.Calls
import StreamMux.Session.Strands

/-! A strand that nobody disturbs does what the function of the session does that runs in one piece: it leaves the
same connection and queues the same frames. -/

namespace StreamMux

namespace Lanes

variable {α : Type} {l : Lanes α}

theorem push_of_stopped (h : l.stopped = true) (lane : Lane) (x : α) : l.push lane x = none := by
  unfold push
  rw [if_pos h]

theorem push_of_running (h : l.stopped = false) (lane : Lane) (x : α) :
    ∃ l', l.push lane x = some l' ∧ l'.stopped = false := by
  unfold push
  rw [if_neg (by simp [h])]
  cases lane <;> exact ⟨_, rfl, h⟩

end Lanes

namespace Parley

variable {p q : Parley} {n : Nat} {s t : Session} {frame : Frame}

/-- What the strands of a connection share is as the session has it. -/
structure Mirrors (n : Nat) (s : Session) (p : Parley) : Prop where
  maxSegment : p.maxSegment = s.settings.maxSegment
  conn : s.conns[n]? = some p.conn
  ended : p.ended = s.closed
  stopped : p.outbox.stopped = s.outbox.state.stopped
  queued : p.queued = s.said n

theorem Mirrors.changeConn (h : p.Mirrors n s) {change : Conn → Conn × List Fiber} {conn : Conn}
    (hc : (change p.conn).1 = conn) : Mirrors n (s.changeConn n change) { p with conn } := by
  have hlt := (List.getElem?_eq_some_iff.1 h.conn).1
  simp only [Session.changeConn, h.conn]
  refine ⟨h.maxSegment, ?_, h.ended, h.stopped, h.queued⟩
  exact hc ▸ List.getElem?_set_self hlt

/-- Both refuse a frame, or both queue it. -/
theorem Mirrors.post (h : p.Mirrors n s) (running : p.ended = false) (frame : Frame) (call : Option Nat) :
    (p.post frame = none ∧ s.post { frame, conn := n, call } = none) ∨
      ∃ q t, p.post frame = some q ∧ s.post { frame, conn := n, call } = some t ∧ q.Mirrors n t := by
  have hopen : ¬ s.closed = true := by simp [← h.ended, running]
  unfold Parley.post Session.post Queue.push
  rw [if_neg hopen]
  cases hstopped : p.outbox.stopped
  · right
    obtain ⟨lanes, hpush, hlanes⟩ := Lanes.push_of_running hstopped _ _
    obtain ⟨outbox, hpush', houtbox⟩ := Lanes.push_of_running (h.stopped ▸ hstopped) _ _
    dsimp only
    rw [hpush, hpush']
    refine ⟨_, _, rfl, rfl, h.maxSegment, h.conn, h.ended, hlanes.trans houtbox.symm, ?_⟩
    have hqueued := h.queued
    simp only [Session.said, Session.queued] at hqueued
    simp [Session.said, Session.queued, Session.note, Session.wake, Event.queued?, hqueued]
  · left
    dsimp only
    rw [Lanes.push_of_stopped hstopped, Lanes.push_of_stopped (h.stopped ▸ hstopped)]
    exact ⟨rfl, rfl⟩

theorem Mirrors.postOrDrop (h : p.Mirrors n s) (running : p.ended = false) (frame : Frame) :
    ((p.post frame).getD p).Mirrors n (s.postOrDrop { frame, conn := n }) := by
  unfold Session.postOrDrop
  rcases h.post running frame none with ⟨hp, hs⟩ | ⟨q, t, hp, hs, hmirrors⟩
  · rw [hp, hs]
    exact h
  · rw [hp, hs]
    exact hmirrors

theorem Mirrors.freeId (h : p.Mirrors n s) (registry : Registry Nat) : p.Mirrors n { s with registry } :=
  ⟨h.maxSegment, h.conn, h.ended, h.stopped, h.queued⟩

/-- A session that has ended takes no frame. -/
theorem Mirrors.post_ended (h : p.Mirrors n s) (ended : p.ended = true) (out : Outgoing) : s.post out = none :=
  if_pos (h.ended ▸ ended)

theorem Mirrors.postOrDrop_ended (h : p.Mirrors n s) (ended : p.ended = true) (out : Outgoing) :
    s.postOrDrop out = s := by rw [Session.postOrDrop, h.post_ended ended]; rfl

/-- The connection after both windows were stopped. -/
def mark (p : Parley) : Parley := { p with conn := { p.conn with closed := true }.stopWindows.1 }

theorem run_close (hopen : p.conn.closed = false) : p.run 6 (.close .here) =
    (if p.conn.closing ∨ p.ended then p.mark
      else (p.mark.post (.control .connClose p.conn.id)).getD p.mark, .done) := by
  cases hclosing : p.conn.closing <;> cases hended : p.ended <;>
    simp [run, step, mark, hopen, hclosing, hended, Conn.stopWindows]

/-- A close on this side that nobody disturbs. -/
theorem Mirrors.closeConn (h : p.Mirrors n s) : (p.run 6 (.close .here)).1.Mirrors n (s.closeConn n) := by
  simp only [Session.closeConn, h.conn]
  cases hclosed : p.conn.closed
  · have hmarked : p.mark.Mirrors n (s.changeConn n fun c => { c with closed := true }.stopWindows) :=
      h.changeConn rfl
    rw [run_close hclosed, if_neg (by simp)]
    refine .freeId ?_ _
    cases hclosing : p.conn.closing
    · rw [if_neg (by simp : ¬ false = true)]
      cases hended : p.ended
      · exact hmarked.postOrDrop hended _
      · rw [hmarked.postOrDrop_ended hended]
        exact hmarked
    · exact hmarked
  · rw [if_pos rfl]
    have hrun : p.run 6 (.close .here) = (p, .done) := by simp [run, step, hclosed]
    rw [hrun]
    exact h

theorem run_report (hclosed : p.conn.closed = false) (hclosing : p.conn.closing = false) {inflow : Inflow Fiber}
    {credit : UInt32} (hcredit : p.conn.inflow.takeCredit p.maxSegment = (inflow, some credit)) {q : Parley}
    (hq : q = { p with conn := { p.conn with inflow } }) : p.run 5 .report =
      (if p.ended then q else (q.post (.sendOk p.conn.id credit)).getD q, .done) := by
  subst hq
  cases hended : p.ended <;> simp [run, step, hclosed, hclosing, hcredit, hended]

/-- A report that nobody disturbs. -/
theorem Mirrors.reportCredit (h : p.Mirrors n s) : (p.run 5 .report).1.Mirrors n (s.reportCredit n) := by
  simp only [Session.reportCredit, h.conn]
  by_cases hquiet : p.conn.closed ∨ p.conn.closing
  · have hrun : p.run 5 .report = (p, .done) := by
      cases hclosed : p.conn.closed <;> simp_all [run, step]
    rw [if_pos hquiet, hrun]
    exact h
  · have hopen : p.conn.closed = false ∧ p.conn.closing = false := by simpa using hquiet
    rw [if_neg hquiet, ← h.maxSegment]
    rcases hcredit : p.conn.inflow.takeCredit p.maxSegment with ⟨inflow, _ | credit⟩
    · obtain rfl : inflow = p.conn.inflow := by
        unfold Inflow.takeCredit ReceiveWindow.takeCredit at hcredit
        by_cases hdue : p.conn.inflow.state.consumed = 0 ∨
            (p.conn.inflow.state.consumed < p.maxSegment ∧ 0 < p.conn.inflow.state.buffered)
        · rw [if_pos hdue] at hcredit
          cases hcredit
          rfl
        · rw [if_neg hdue] at hcredit
          cases hcredit
      have hlook : p.step .report = (p, .reportOn) := if_neg (by simp [hopen])
      have hlookOn : p.step .reportOn = (p, .settle) := if_neg (by simp [hopen])
      have hsettle : p.step .settle = (p, .done) := by simp only [step, hcredit]
      have hdone (q : Parley) : q.step .done = (q, .done) := rfl
      simp only [run, hlook, hlookOn, hsettle, hdone]
      exact h
    · rw [run_report hopen.1 hopen.2 hcredit rfl]
      have hmarked : Mirrors n (s.changeConn n fun c => ({ c with inflow }, []))
          { p with conn := { p.conn with inflow } } := h.changeConn rfl
      rcases Bool.eq_false_or_eq_true p.ended with hended | hended
      · rw [if_pos hended]
        simp only [hmarked.postOrDrop_ended hended]
        exact hmarked
      · rw [if_neg (by simp [hended])]
        exact hmarked.postOrDrop hended _

theorem run_write {call written credit : Nat} {data : Bytes} {outflow : Outflow Fiber}
    (hleft : ¬ data.length ≤ written) (hclosed : p.conn.closed = false) (hclosing : p.conn.closing = false)
    (running : p.ended = false)
    (hacquire : p.conn.outflow.acquire (.call call) (min (data.length - written) p.maxSegment) =
      (outflow, some (some credit))) (hq : q = { p with conn := { p.conn with outflow } }) :
    p.run 5 (.write call data written) = q.step (.queueSegment call data written credit) := by
  have hsend : q.step (.send call data written credit) = (q, .queueSegment call data written credit) :=
    if_neg (by simp [hq, running])
  have htake : p.step (.takeCredit call data written) = (q, .send call data written credit) := by
    simp only [step, hacquire, hq]
  have hwriteOn : p.step (.writeOn call data written) = (p, .takeCredit call data written) :=
    if_neg (by simp [hclosing])
  have hwrite : p.step (.write call data written) = (p, .writeOn call data written) :=
    if_neg (by simp [hleft, hclosed])
  simp only [run, hwrite, hwriteOn, htake, hsend]

/-- A write that nobody disturbs, from one segment to the next. -/
theorem Mirrors.sendOn {call written : Nat} {data : Bytes} (h : p.Mirrors n s)
    (hgo : s.sendOn call n data written = (t, true)) :
    ∃ q written', p.run 5 (.write call data written) = (q, .write call data written') ∧ q.Mirrors n t := by
  simp only [Session.sendOn, h.conn] at hgo
  split at hgo
  · cases hgo
  · rename_i hleft
    split at hgo
    · cases hgo
    · rename_i hquiet
      have hopen : p.conn.closed = false ∧ p.conn.closing = false := by simpa using hquiet
      simp only [Session.awaitCredit, h.conn, ← h.maxSegment] at hgo
      rcases hacquire : p.conn.outflow.acquire (.call call) (min (data.length - written) p.maxSegment) with
        ⟨outflow, _ | _ | credit⟩ <;> rw [hacquire] at hgo
      · cases hgo
      · cases hgo
      · have hmarked : Mirrors n (s.changeConn n fun c => ({ c with outflow }, []))
            { p with conn := { p.conn with outflow } } := h.changeConn rfl
        have hspent : Mirrors n ((s.changeConn n fun c => ({ c with outflow }, [])).note (.spent n call credit))
            { p with conn := { p.conn with outflow } } :=
          ⟨hmarked.maxSegment, hmarked.conn, hmarked.ended, hmarked.stopped, by
            simpa [Session.said, Session.queued, Session.note, Event.queued?] using hmarked.queued⟩
        simp only [Session.sendSegment] at hgo
        split at hgo <;> rename_i hpost <;> cases hgo
        have hrunning : p.ended = false := by
          cases hended : p.ended
          · rfl
          · cases (hspent.post_ended hended _).symm.trans hpost
        rcases hspent.post hrunning (.data p.conn.id ((data.drop written).take credit)
          (written + credit < data.length)) (some call) with ⟨-, hrefused⟩ | ⟨q, t, hp, ht, hmirrors⟩
        · cases hrefused.symm.trans hpost
        · cases ht.symm.trans hpost
          refine ⟨q, written + credit, ?_, hmirrors.maxSegment, hmirrors.conn, hmirrors.ended, hmirrors.stopped,
            hmirrors.queued⟩
          rw [run_write hleft hopen.1 hopen.2 hrunning hacquire rfl]
          simp only [step, hp]

/-- The peer closes. -/
theorem run_closeByPeer (p : Parley) :
    p.run 3 (.close .peer) = ({ p with conn := p.conn.closeByPeer.1 }, .done) := by
  simp [run, step, Conn.closeByPeer, Conn.stopWindows]

/-- The session closes. -/
theorem run_shutdown (p : Parley) :
    p.run 3 (.close .session) = ({ p with conn := { p.conn.shutdown.1 with reply := p.conn.reply } }, .done) := by
  unfold Conn.shutdown
  dsimp only
  split <;> simp [run, step, Conn.stopWindows]

end Parley
end StreamMux
