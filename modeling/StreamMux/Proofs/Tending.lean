import StreamMux.Proofs.Tended
import StreamMux.Proofs.Joint

/-! No turn and no move forgets anybody. The loops leave every call in its place or wake it. A call that
has the turn is away from its place meanwhile; when it stops it has ended or stands where it will be
woken, and what it read has been reported. -/

namespace StreamMux

namespace Session

variable {away away' : Nat → Prop} {debt : Option Nat} {s s' : Session}

namespace Tended

/-- Whatever changes neither a connection nor a call, nor ends the session, nor lets a ready fiber go. -/
theorem still (h : Tended away debt s) (hs : s'.settings = s.settings) (hn : s'.conns = s.conns)
    (hk : s'.calls = s.calls) (hc : s'.closed = s.closed) (hr : s'.ready = s.ready) :
    Tended away debt s' :=
  h.frame hs hn hk hc (hr ▸ List.Subset.refl _)

/-! ### Frames from the peer -/

theorem pushSegment (h : Tended away debt s) (n : Nat) (data : Bytes) (part : Bool) :
    Tended away debt (s.pushSegment n data part) := by
  unfold Session.pushSegment
  split
  · exact h
  · rename_i c hc
    split
    · exact h.closeConn n
    · rename_i inflow woken hw
      refine Tended.note (h.changeWindows (fun d hd => ?_) (fun d hd _ => ?_) fun _ => rfl) _
      · cases hc.symm.trans hd
        exact Conn.heeds_write hw
      · cases hc.symm.trans hd
        exact Conn.saves_write hw

theorem applyFrame (h : Tended away debt s) (n : Nat) (f : Frame) :
    Tended away debt (s.applyFrame n f) := by
  have hanswer (accepted : Bool) : Tended away debt (s.changeConn n (Conn.answer accepted)) :=
    h.changeWindows (fun c _ => Conn.heeds_answer accepted c) (fun c _ _ => Conn.saves_answer accepted c)
      fun c => by unfold Conn.answer; split <;> rfl
  unfold Session.applyFrame
  split
  · exact h.pushSegment ..
  · exact h.pushSegment ..
  · exact hanswer true
  · exact hanswer false
  · exact h.changeWindows (fun c _ => Conn.heeds_grant f.window c) (fun _ _ _ => .same rfl rfl rfl)
      fun _ => rfl
  · exact h.changeWindows (fun c _ => Conn.heeds_closeByPeer c) (fun _ _ _ _ hc => by cases hc)
      fun _ => rfl
  · exact h

theorem route (h : Tended away debt s) (f : Frame) : Tended away debt (s.route f) := by
  unfold Session.route
  split
  · exact h
  · exact (h.note _).applyFrame _ _

theorem stage (h : Tended away debt s) (id : Int32) : Tended away debt (s.stage id) := by
  have hadd := (h.addConn id .unasked).note (.staged (s.addConn id .unasked).2)
  unfold Session.stage
  dsimp only
  split
  · refine Tended.wake ?_ _
    exact hadd.still rfl rfl rfl rfl rfl
  · exact hadd.shutConn _

theorem dispatch (h : Tended away debt s) (f : Frame) : Tended away debt (s.dispatch f) := by
  have hnote : Tended away debt (({ s with reader := .between } : Session).note (.dispatched f)) :=
    h.still rfl rfl rfl rfl rfl
  unfold Session.dispatch
  dsimp only
  split
  · exact hnote.stage _
  · exact hnote.postOrDrop _
  · exact hnote.still rfl rfl rfl rfl rfl
  · exact hnote
  · exact hnote
  · exact hnote.route f

/-! ### Loops -/

theorem endWriter (h : Tended away debt s) : Tended away debt s.endWriter := h.still rfl rfl rfl rfl rfl

theorem nextFrame (h : Tended away debt s) : Tended away debt s.nextFrame.1 := by
  unfold Session.nextFrame
  split
  · exact h.still rfl rfl rfl rfl rfl
  · exact h.still rfl rfl rfl rfl rfl
  · rename_i outbox out hp
    have hnote : Tended away debt (({ s with outbox } : Session).note (.started out)) :=
      h.still rfl rfl rfl rfl rfl
    dsimp only
    split
    · exact hnote.still rfl rfl rfl rfl rfl
    · exact hnote.close.endWriter

theorem writerTurn (h : Tended away debt s) (first : Bool) :
    Tended away debt (s.writerTurn first).1 := by
  have hsome (rest : Bytes) : Tended away debt (s.writeSome rest).1 := by
    unfold Session.writeSome
    dsimp only
    split
    · exact h.close.endWriter
    · split
      · split
        · exact h.endWriter
        · exact h
      · exact h.still rfl rfl rfl rfl rfl
  unfold Session.writerTurn
  split
  · exact h
  · split
    · exact h.endWriter
    · exact h.nextFrame
  · split
    · exact h.endWriter
    · exact hsome _

theorem endReader (h : Tended away debt s) : Tended away debt s.endReader := h.still rfl rfl rfl rfl rfl

theorem receive (h : Tended away debt s) (f : Frame) : Tended away debt (s.receive f) := by
  have hcount : Tended away debt
      ({ s with throughput := s.throughput.add f.bytes.length, idleTicks := 0 } : Session) :=
    h.still rfl rfl rfl rfl rfl
  exact hcount.dispatch f

theorem readSome (h : Tended away debt s) (decoder : Decoder) :
    Tended away debt (s.readSome decoder).1 := by
  have hinlet (inlet : Inlet) : Tended away debt ({ s with inlet } : Session) :=
    h.still rfl rfl rfl rfl rfl
  unfold Session.readSome
  split
  · exact (hinlet _).receive _
  · exact (hinlet _).close.endReader
  · rename_i left _
    have hread : Tended away debt
        ({ s with inlet := { s.inlet with bytes := [] }, reader := .reading left } : Session) :=
      h.still rfl rfl rfl rfl rfl
    dsimp only
    split
    · exact hread.endReader
    · split
      · exact hread.close.endReader
      · exact hread

theorem readerTurn (h : Tended away debt s) (first : Bool) :
    Tended away debt (s.readerTurn first).1 := by
  have hbetween : Tended away debt ({ s with reader := .between } : Session) :=
    h.still rfl rfl rfl rfl rfl
  unfold Session.readerTurn
  split
  · exact h
  · split
    · exact h.endReader
    · exact h.still rfl rfl rfl rfl rfl
  · split
    · exact h.endReader
    · exact h.readSome _
  · rename_i payload _
    split
    · exact hbetween
    · unfold Session.handPong
      split
      · have hpong : Tended away debt
            ({ s with pongs := s.pongs ++ [payload], reader := .between } : Session) :=
          h.still rfl rfl rfl rfl rfl
        exact hpong.wake _
      · split
        · exact hbetween
        · exact h

theorem endAcceptor (h : Tended away debt s) : Tended away debt s.endAcceptor :=
  h.still rfl rfl rfl rfl rfl

theorem decideConn (h : Tended away debt s) (n : Nat) : Tended away debt (s.decideConn n).1 := by
  unfold Session.decideConn
  split
  · exact h
  · split
    · exact h.still rfl rfl rfl rfl rfl
    · exact ((h.shutConn n).note _).postOrDrop _

theorem publish (h : Tended away debt s) (n : Nat) : Tended away debt (s.publish n).1 := by
  unfold Session.publish
  split
  · have hpub : Tended away debt ({ s with published := s.published ++ [n] } : Session) :=
      h.still rfl rfl rfl rfl rfl
    have hwake := (hpub.note (.published n)).wake ((s.acceptLock.holder.map Fiber.call).toList)
    dsimp only
    split
    · unfold Session.confirm
      split
      · rename_i hp
        exact (hwake.post hp).still rfl rfl rfl rfl rfl
      · exact hwake.endAcceptor
    · exact hwake
  · split
    · exact h.endAcceptor
    · exact h

theorem acceptorTurn (h : Tended away debt s) (first : Bool) :
    Tended away debt (s.acceptorTurn first).1 := by
  unfold Session.acceptorTurn
  split
  · exact h
  · split
    · exact h.endAcceptor
    · unfold Session.nextStaged
      split
      · exact h.still rfl rfl rfl rfl rfl
      · exact h.still rfl rfl rfl rfl rfl
      · rename_i staged n hp
        have hstaged : Tended away debt ({ s with staged } : Session) := h.still rfl rfl rfl rfl rfl
        exact hstaged.decideConn n
  · split
    · exact h.endAcceptor
    · exact h.publish _

theorem sendPing (h : Tended away debt s) : Tended away debt s.sendPing := by
  unfold Session.sendPing Session.readWall
  have hwall : Tended away debt ({ s with wall := s.wall + 1 } : Session) := h.still rfl rfl rfl rfl rfl
  exact hwall.postOrDrop _

theorem awaitTick (h : Tended away debt s) (due : Moment) : Tended away debt (s.awaitTick due) := by
  have hdue : Tended away debt ({ s with pinger := .waiting due } : Session) :=
    h.still rfl rfl rfl rfl rfl
  exact hdue.setTimer _

theorem pingerTurn (h : Tended away debt s) : Tended away debt s.pingerTurn.1 := by
  have hend {t : Session} (ht : Tended away debt t) : Tended away debt t.endPinger :=
    ht.still rfl rfl rfl rfl rfl
  have hcount : Tended away debt s.countTick := h.still rfl rfl rfl rfl rfl
  unfold Session.pingerTurn
  split
  · exact h
  · exact h.sendPing.awaitTick _
  · split
    · exact hend h
    · split
      · unfold Session.tick
        dsimp only
        split
        · exact hend hcount.close
        · exact hcount.sendPing.awaitTick _
      · exact h

theorem returnsTurn (h : Tended away debt s) (first : Bool) :
    Tended away debt (s.returnsTurn first).1 := by
  have hend : Tended away debt s.endReturns := h.still rfl rfl rfl rfl rfl
  have hmeasure {t : Session} (ht : Tended away debt t) (payload : Bytes) :
      Tended away debt (t.measure payload) := by
    unfold Session.measure
    split
    · exact ht
    · dsimp only
      split
      · exact ht.still rfl rfl rfl rfl rfl
      · exact ht.still rfl rfl rfl rfl rfl
  have hreader {t : Session} (ht : Tended away debt t) : Tended away debt t.wakeReader := by
    unfold Session.wakeReader
    split
    · exact ht.wake _
    · exact ht
  unfold Session.returnsTurn
  split
  · exact h
  · split
    · exact hend
    · split
      · rename_i payload rest _
        have hpong : Tended away debt ({ s with pongs := rest, misses := 0 } : Session) :=
          h.still rfl rfl rfl rfl rfl
        exact hmeasure ((hreader hpong).note _) _
      · split
        · exact hend
        · exact h

end Tended

/-! ### What leaves the calls alone -/

theorem calls_post {out : Outgoing} (h : s.post out = some s') : s'.calls = s.calls := by
  unfold post at h
  split at h
  · cases h
  · obtain ⟨⟨outbox, woken⟩, -, rfl⟩ := Option.map_eq_some_iff.1 h
    rfl

theorem conns_post {out : Outgoing} (h : s.post out = some s') : s'.conns = s.conns := by
  unfold post at h
  split at h
  · cases h
  · obtain ⟨⟨outbox, woken⟩, -, rfl⟩ := Option.map_eq_some_iff.1 h
    rfl

@[simp] theorem calls_postOrDrop (out : Outgoing) (s : Session) : (s.postOrDrop out).calls = s.calls := by
  unfold postOrDrop
  cases hp : s.post out with
  | none => rfl
  | some t => exact calls_post hp

@[simp] theorem calls_reportCredit (n : Nat) (s : Session) : (s.reportCredit n).calls = s.calls := by
  unfold reportCredit
  split
  · rfl
  · split
    · rfl
    · split
      · rfl
      · rw [calls_postOrDrop, calls_changeConn]

@[simp] theorem calls_refuse (n : Nat) (s : Session) : (s.refuse n).calls = s.calls := by
  unfold refuse
  split
  · rfl
  · exact calls_changeConn ..

@[simp] theorem calls_wakeAcceptor (s : Session) : s.wakeAcceptor.calls = s.calls := by
  unfold wakeAcceptor
  split <;> rfl

theorem setStage_self {k : Nat} {c : Call} (hc : s.calls[k]? = some c) (stage : CallStage) :
    (s.setStage k stage).calls[k]? = some { c with stage } := by
  unfold setStage
  rw [List.getElem?_modify, hc]
  simp

theorem changeConn_setStage (n k : Nat) (change : Conn → Conn × List Fiber) (stage : CallStage)
    (s : Session) :
    (s.changeConn n change).setStage k stage = (s.setStage k stage).changeConn n change := by
  unfold changeConn setStage
  cases s.conns[n]? <;> rfl

theorem Lined.changeConn {k : Nat} {c : Call} (h : s.Lined k c) {n : Nat}
    {change : Conn → Conn × List Fiber} (hlock : ∀ d, (change d).1.writeLock = d.writeLock) :
    (s.changeConn n change).Lined k c := fun m hm => by
  obtain ⟨d, hd, hk⟩ := h m hm
  rw [changeConn_getElem?]
  split
  · rename_i hnm
    subst hnm
    exact ⟨_, by rw [hd]; rfl, by rw [hlock]; exact hk⟩
  · exact ⟨d, hd, hk⟩

/-! ### The turn of a call -/

/-- Nobody is away. -/
def nobody : Nat → Prop := fun _ => False

/-- What holds after a turn of a call: nobody is away, or only the call that goes on. -/
structure Served (k : Nat) (r : Session × Bool) : Prop where
  stopped : r.2 = false → Tended nobody none r.1
  goesOn : r.2 = true → Tended (· = k) none r.1 ∧ ∀ c, r.1.calls[k]? = some c → r.1.Lined k c

namespace Served

variable {k n : Nat} {c : Call}

theorem stop (h : Tended (· = k) none s) (hrest : ∀ c, s.calls[k]? = some c → s.Rests k c) :
    Served k (s, false) where
  stopped _ := h.back fun j c hc hj => .inr (by subst hj; exact hrest c hc)
  goesOn ht := by cases ht

theorem go (h : Tended (· = k) none s) (hl : ∀ c, s.calls[k]? = some c → s.Lined k c) :
    Served k (s, true) where
  stopped hf := by cases hf
  goesOn _ := ⟨h, hl⟩

theorem finish (h : Tended (· = k) none s) (hfree : s.Free k) (outcome : Outcome) :
    Served k (s.finish k outcome, false) where
  stopped _ := h.finish (fun _ hj he => absurd he hj) hfree outcome
  goesOn ht := by cases ht

/-- The call waits for the session. -/
theorem wait (h : Tended (· = k) none s) (hc : s.calls[k]? = some c) (hcan : c.isCancellable = true)
    (hopen : ¬ s.closed = true) : Served k (s, false) := by
  refine stop h fun b hb => ?_
  cases hc.symm.trans hb
  refine ⟨.inr (.inr ?_), .free (Call.not_usesLock (Call.isWriting_of_isCancellable hcan))⟩
  unfold Call.isCancellable at hcan
  unfold Parked
  cases hs : c.stage <;> rw [hs] at hcan <;> first | exact eq_false_of_ne_true hopen | cases hcan

/-- A call reaches a stage without a lock, and goes on. -/
theorem goOn (h : Tended (· = k) none s) (hc : s.calls[k]? = some c) (hfree : s.Free k)
    {stage : CallStage} (hfits : ({ c with stage } : Call).Fits s.conns.length)
    (hno : ∀ n, ¬ ({ c with stage } : Call).UsesLock n) : Served k (s.setStage k stage, true) := by
  refine go (h.setStage (fun _ _ hj => hj) (fun b hb => ?_) hfree fun hk => absurd rfl hk)
    fun b hb => ?_
  · cases hc.symm.trans hb
    exact hfits
  · cases (setStage_self hc stage).symm.trans hb
    exact .free hno

/-! ### Open and accept -/

theorem requestUnder (h : Tended (· = k) none s) (hc : s.calls[k]? = some c) (hs : c.stage = .fresh)
    (drawn : Option (Int32 × IdSource)) : Served k (s.requestUnder drawn k) := by
  have hno := Call.not_usesLock (c := c) (by rw [hs]; rfl)
  unfold Session.requestUnder
  split
  · refine go h fun b hb => ?_
    cases hc.symm.trans hb
    exact .free hno
  · rename_i id ids
    have hids : Tended (· = k) none ({ s with ids } : Session) := h.still rfl rfl rfl rfl rfl
    have hadd := hids.addConn id (.awaited k)
    dsimp only
    split
    · exact finish hadd (hadd.free hc hno) _
    · rename_i registry _
      have hreg : Tended (· = k) none (({ (({ s with ids } : Session).addConn id (.awaited k)).1 with
          registry } : Session).note (.registered s.conns.length)) := hadd.still rfl rfl rfl rfl rfl
      split
      · exact finish hadd (hadd.free hc hno) _
      · rename_i t hp
        have hpost := hreg.post hp
        have hct : t.calls[k]? = some c := (calls_post hp) ▸ hc
        have hgo : Served k (t.setStage k (.answering s.conns.length (t.now + t.settings.openTimeout)),
            true) :=
          goOn hpost hct (hpost.free hct hno) ⟨(hpost.fits k c hct).aimed, trivial⟩ fun _ hu => hu
        exact go ((hgo.goesOn rfl).1.setTimer _) (hgo.goesOn rfl).2

theorem awaitAnswer (h : Tended (· = k) none s) (hc : s.calls[k]? = some c) {due : Moment}
    (hs : c.stage = .answering n due) : Served k (s.awaitAnswer k n due) := by
  have hno := Call.not_usesLock (c := c) (by rw [hs]; rfl)
  have hend (outcome : Outcome) : Served k (s.finish k outcome, false) := finish h (h.free hc hno) outcome
  have hrefuse : Tended (· = k) none (s.refuse n) := by
    unfold Session.refuse
    split
    · exact h
    · rename_i d _
      have hfreed : Tended (· = k) none ({ s with registry := (s.registry.delete d.id).1 } : Session) :=
        h.still rfl rfl rfl rfl rfl
      exact hfreed.shutConn n
  unfold Session.awaitAnswer
  split
  · exact hend _
  · exact finish hrefuse (hrefuse.free (by rw [calls_refuse]; exact hc) hno) _
  · split
    · exact hend _
    · split
      · exact hend _
      · rename_i hopen
        exact wait h hc (by unfold Call.isCancellable; rw [hs]) hopen
  · exact hend _

theorem leaveAccept (h : Tended away debt s) : Tended away debt (s.leaveAccept k) := by
  have hlock : Tended away debt ({ s with acceptLock := (s.acceptLock.leave k).1 } : Session) :=
    h.still rfl rfl rfl rfl rfl
  exact hlock.wake _

theorem awaitConn (h : Tended (· = k) none s) (hc : s.calls[k]? = some c) (hs : c.stage = .accepting) :
    Served k (s.awaitConn k) := by
  have hno := Call.not_usesLock (c := c) (by rw [hs]; rfl)
  have hend {t : Session} (ht : Tended (· = k) none t) (hcalls : t.calls = s.calls) (outcome : Outcome) :
      Served k ((t.leaveAccept k).finish k outcome, false) :=
    finish (leaveAccept ht) ((leaveAccept ht).free (hcalls ▸ hc) hno) outcome
  unfold Session.awaitConn
  split
  · rename_i rest _ _
    have hrest : Tended (· = k) none ({ s with published := rest } : Session) :=
      h.still rfl rfl rfl rfl rfl
    have hwake : Tended (· = k) none ({ s with published := rest } : Session).wakeAcceptor := by
      unfold Session.wakeAcceptor
      split
      · exact hrest.wake _
      · exact hrest
    exact hend hwake (calls_wakeAcceptor _) _
  · split
    · exact hend h rfl _
    · rename_i hopen
      exact wait h hc (by unfold Call.isCancellable; rw [hs]) hopen

/-! ### Read -/

/-- A report pays the debt that a reader made. -/
theorem reportCredit (h : Tended away (some n) s) : Tended away none (s.reportCredit n) := by
  -- with the connection thrifty, or not open, nobody is in debt
  have hpaid {t : Session} (ht : Tended away (some n) t) (hn : ∀ c : Conn, t.conns[n]? = some c →
      c.closed = false → c.closing = false → c.inflow.state.Thrifty t.settings.maxSegment) :
      Tended away none t :=
    { ht with
      thrifty := fun m c hc _ h₁ h₂ => by
        by_cases hm : m = n
        · subst hm
          exact hn c hc h₁ h₂
        · exact ht.thrifty m c hc (by simpa using Ne.symm hm) h₁ h₂ }
  unfold Session.reportCredit
  split
  · rename_i hnone
    exact hpaid h fun c hc => by rw [hnone] at hc; cases hc
  · rename_i c hc
    split
    · rename_i hover
      refine hpaid h fun d hd h₁ h₂ => ?_
      cases hc.symm.trans hd
      rcases hover with hover | hover
      · rw [h₁] at hover; cases hover
      · rw [h₂] at hover; cases hover
    · split
      · rename_i inflow ht
        refine hpaid h fun d hd _ _ => ?_
        cases hc.symm.trans hd
        exact Inflow.takeCredit_none ht ▸ Conn.saves_takeCredit ht
      · rename_i inflow credit ht
        refine Tended.postOrDrop (hpaid (h.changeWindows (fun d hd => ?_) (fun _ _ hne => absurd rfl hne)
          fun _ => rfl) fun d hd _ _ => ?_) _
        · cases hc.symm.trans hd
          exact Conn.heeds_takeCredit ht
        · rw [changeConn_getElem?, if_pos rfl, hc] at hd
          cases hd
          rw [settings_changeConn]
          exact Conn.saves_takeCredit ht

theorem awaitData (h : Tended (· = k) none s) (hc : s.calls[k]? = some c) (hs : c.stage = .reading)
    {want : Want} (hreq : c.request = .read n want) : Served k (s.awaitData k n want) := by
  have hno := Call.not_usesLock (c := c) (by rw [hs]; rfl)
  unfold Session.awaitData
  split
  · rename_i hnone
    have hlt := (h.fits k c hc).aimed n (by rw [hreq]; rfl)
    rw [List.getElem?_eq_getElem hlt] at hnone
    cases hnone
  · rename_i d hd
    split
    · rename_i inflow ht
      have hchange : Tended (· = k) none (s.changeConn n fun c => ({ c with inflow }, [])) := by
        refine h.changeWindows (fun e he => ?_) (fun e he _ => ?_) fun _ => rfl
        · cases hd.symm.trans he
          exact Conn.heeds_take ht
        · cases hd.symm.trans he
          exact Conn.saves_take_none ht
      refine stop hchange fun b hb => ?_
      rw [calls_changeConn] at hb
      cases hc.symm.trans hb
      refine ⟨.inr (.inr ?_), .free hno⟩
      unfold Parked
      rw [hs]
      refine ⟨n, { d with inflow }, by rw [hreq]; rfl, ?_, Monitor.asleep_of_poll_none ht⟩
      rw [changeConn_getElem?, if_pos rfl, hd]
      rfl
    · rename_i inflow taken ht
      have howe : Tended (· = k) (some n) s :=
        { h with thrifty := fun m c hc _ => h.thrifty m c hc (by simp) }
      have hchange : Tended (· = k) (some n) (s.changeConn n fun c => ({ c with inflow }, [])) := by
        refine howe.changeWindows (fun e he => ?_) (fun _ _ hne => absurd rfl hne) fun _ => rfl
        cases hd.symm.trans he
        exact Conn.heeds_take ht
      have hreport := reportCredit (hchange.note (.handedOut n taken))
      refine finish hreport (hreport.free ?_ hno) _
      rw [calls_reportCredit]
      exact (calls_changeConn ..).symm ▸ hc

/-! ### Write -/

/-- A write, which is at a stage where it uses the lock of its connection. -/
structure Writing (k n : Nat) (data : Bytes) (c : Call) (s : Session) : Prop where
  call : s.calls[k]? = some c
  request : c.request = .write n data
  uses : c.UsesLock n
  lined : s.Lined k c

variable {data : Bytes} {written : Nat}

theorem Writing.frame (h : Writing k n data c s) (hk : s'.calls = s.calls) (hn : s'.conns = s.conns) :
    Writing k n data c s' :=
  ⟨hk ▸ h.call, h.request, h.uses, by unfold Lined; rw [hn]; exact h.lined⟩

theorem Writing.changeConn (h : Writing k n data c s) {change : Conn → Conn × List Fiber}
    (hlock : ∀ d, (change d).1.writeLock = d.writeLock) : Writing k n data c (s.changeConn n change) :=
  ⟨by rw [calls_changeConn]; exact h.call, h.request, h.uses, h.lined.changeConn hlock⟩

/-- Another stage at which the lock is used. -/
theorem Writing.setStage (h : Writing k n data c s) {stage : CallStage}
    (huses : ({ c with stage } : Call).UsesLock n) :
    Writing k n data { c with stage } (s.setStage k stage) where
  call := setStage_self h.call stage
  request := h.request
  uses := huses
  lined m hm := by
    obtain ⟨text, htext⟩ := hm.request_eq
    cases h.request.symm.trans htext
    exact h.lined n h.uses

theorem restage (h : Tended away debt s) (hw : Writing k n data c s) {stage : CallStage}
    (huses : ({ c with stage } : Call).UsesLock n)
    (hsuits : ({ c with stage } : Call).Fits s.conns.length) (hback : ∀ j, j ≠ k → away j → away' j)
    (hrest : ¬ away' k → s.Rests k { c with stage }) : Tended away' debt (s.setStage k stage) := by
  refine h.modifyCall hback (fun b hb => ?_) (fun m d b hd hk hb => ?_) fun ha b hb => ?_
  · cases hw.call.symm.trans hb
    exact hsuits
  · obtain ⟨e, he, huse⟩ := h.members m d k hd hk
    cases hw.call.symm.trans he
    cases hw.call.symm.trans hb
    obtain ⟨text, htext⟩ := huse.request_eq
    cases hw.request.symm.trans htext
    exact huses
  · cases hw.call.symm.trans hb
    exact hrest ha

/-- A write that has sent something goes on. -/
theorem sending (h : Tended (· = k) none s) (hw : Writing k n data c s) (written : Nat) :
    Served k (s.setStage k (.sending written), true) := by
  have huses : ({ c with stage := .sending written } : Call).UsesLock n := ⟨data, hw.request⟩
  have hfits := h.fits k c hw.call
  refine go (restage h hw huses ⟨hfits.aimed, n, huses⟩ (fun _ _ hj => hj) fun ha => absurd rfl ha)
    fun b hb => ?_
  have hw' := hw.setStage huses
  cases hw'.call.symm.trans hb
  exact hw'.lined

theorem leaveWrite (h : Tended (· = k) none s) (hw : Writing k n data c s) :
    Tended (· = k) none (s.leaveWrite k n) ∧ (s.leaveWrite k n).Free k := by
  unfold Session.leaveWrite
  constructor
  · refine h.changeConn (fun d hd => ?_) (fun d _ _ => .same rfl rfl rfl) fun d j hd hj => .inl ?_
    · exact Conn.heeds_lock_leave (h.calm n d hd).lock k
    · exact (Lock.leave_spec (h.calm n d hd).lock k).2.2.1 hj
  · intro m d hd hk
    rw [changeConn_getElem?] at hd
    split at hd
    · obtain ⟨e, he, rfl⟩ := Option.map_eq_some_iff.1 hd
      exact (Lock.leave_spec (h.calm n e he).lock k).2.1 hk
    · rename_i hne
      obtain ⟨b, hb, huse⟩ := h.members m d k hd hk
      cases hw.call.symm.trans hb
      obtain ⟨text, htext⟩ := huse.request_eq
      cases hw.request.symm.trans htext
      exact hne rfl

theorem finishWrite (h : Tended (· = k) none s) (hw : Writing k n data c s) (outcome : Outcome) :
    Served k (s.finishWrite k n outcome, false) :=
  finish (leaveWrite h hw).1 (leaveWrite h hw).2 outcome

theorem sendSegment (h : Tended (· = k) none s) (hw : Writing k n data c s) (id : Int32) (credit : Nat) :
    Served k (s.sendSegment k n id data written credit) := by
  have hspent : Writing k n data c (s.note (.spent n k credit)) := hw.frame rfl rfl
  unfold Session.sendSegment
  dsimp only
  split
  · rename_i hp
    exact sending ((h.note _).post hp) (hspent.frame (calls_post hp) (conns_post hp)) _
  · exact finishWrite (h.note _) hspent _

theorem awaitCredit (h : Tended (· = k) none s) (hw : Writing k n data c s) :
    Served k (s.awaitCredit k n data written) := by
  unfold Session.awaitCredit
  split
  · rename_i hnone
    obtain ⟨d, hd, -⟩ := hw.lined n hw.uses
    rw [hnone] at hd
    cases hd
  · rename_i d hd
    dsimp only
    generalize hacq : d.outflow.acquire (.call k) (min (data.length - written) s.settings.maxSegment) = r
    obtain ⟨outflow, answer⟩ := r
    have hchange : Tended (· = k) none (s.changeConn n fun c => ({ c with outflow }, [])) := by
      refine h.changeWindows (fun e he => ?_) (fun _ _ _ => .same rfl rfl rfl) fun _ => rfl
      cases hd.symm.trans he
      exact Conn.heeds_acquire hacq
    have hw' : Writing k n data c (s.changeConn n fun c => ({ c with outflow }, [])) :=
      hw.changeConn fun _ => rfl
    have hd' : (s.changeConn n fun c => ({ c with outflow }, [])).conns[n]? =
        some { d with outflow } := by
      rw [changeConn_getElem?, if_pos rfl, hd]
      rfl
    have hfits := hchange.fits k c hw'.call
    rcases answer with _ | _ | credit
    · have huses : ({ c with stage := .crediting written } : Call).UsesLock n := ⟨data, hw.request⟩
      refine ⟨fun _ => restage hchange hw' huses ⟨hfits.aimed, n, huses⟩ (fun j hj he => absurd he hj)
        fun _ => ⟨.inr (.inr ?_), (hw'.setStage huses).lined⟩, fun ht => by cases ht⟩
      exact ⟨n, _, by rw [hw.request]; rfl, hd', Monitor.asleep_of_poll_none hacq⟩
    · exact finishWrite hchange hw' _
    · exact sendSegment hchange hw' _ _

theorem sendOn (h : Tended (· = k) none s) (hw : Writing k n data c s) :
    Served k (s.sendOn k n data written) := by
  unfold Session.sendOn
  split
  · rename_i hnone
    obtain ⟨d, hd, -⟩ := hw.lined n hw.uses
    rw [hnone] at hd
    cases hd
  · split
    · exact finishWrite h hw _
    · split
      · exact finishWrite h hw _
      · exact awaitCredit h hw

/-- A write asks for the lock. -/
theorem joinLine (h : Tended (· = k) none s) (hc : s.calls[k]? = some c) (hs : c.stage = .fresh)
    (hreq : c.request = .write n data) :
    Served k ((s.changeConn n fun c =>
      ({ c with writeLock := c.writeLock.request k }, [])).setStage k .inLine, true) := by
  have hno := Call.not_usesLock (c := c) (by rw [hs]; rfl)
  have hfree := h.free hc hno
  have huses : ({ c with stage := .inLine } : Call).UsesLock n := ⟨data, hreq⟩
  -- as a member it has to be at the stage already
  rw [changeConn_setStage]
  have hstage : Tended (· = k) none (s.setStage k .inLine) := by
    refine h.setStage (fun _ _ hj => hj) (fun b hb => ?_) hfree fun ha => absurd rfl ha
    cases hc.symm.trans hb
    exact ⟨(h.fits k c hc).aimed, n, huses⟩
  refine go (hstage.changeConn (fun d hd => Conn.heeds_lock_request (hfree n d hd))
    (fun _ _ _ => .same rfl rfl rfl) fun d j _ hj => ?_) fun b hb m hm => ?_
  · rcases List.mem_cons.1 (Lock.members_request k d.writeLock hj) with rfl | hj
    · exact .inr ⟨_, setStage_self hc .inLine, huses⟩
    · exact .inl hj
  · rw [calls_changeConn] at hb
    cases (setStage_self hc .inLine).symm.trans hb
    obtain ⟨text, htext⟩ := hm.request_eq
    cases hreq.symm.trans htext
    have hlt := (h.fits k c hc).aimed n (by rw [hreq]; rfl)
    refine ⟨_, by rw [changeConn_getElem?, if_pos rfl]; exact congrArg _ (List.getElem?_eq_getElem hlt), ?_⟩
    rcases Lock.mem_request k s.conns[n].writeLock with hk | hk
    · exact List.mem_append_left _ (by rw [hk]; exact List.mem_singleton_self _)
    · exact List.mem_append_right _ hk

/-! ### Turns -/

theorem beginCall (h : Tended (· = k) none s) (hc : s.calls[k]? = some c) (hs : c.stage = .fresh) :
    Served k (s.beginCall k c.request) := by
  have hno := Call.not_usesLock (c := c) (by rw [hs]; rfl)
  have hfree := h.free hc hno
  have haimed := (h.fits k c hc).aimed
  unfold Session.beginCall
  split
  · split
    · exact finish h hfree _
    · exact requestUnder h hc hs _
  · split
    · exact finish h hfree _
    · have hlock : Tended (· = k) none ({ s with acceptLock := s.acceptLock.request k } : Session) :=
        h.still rfl rfl rfl rfl rfl
      exact goOn hlock hc hfree ⟨haimed, trivial⟩ fun _ => id
  · rename_i n want hreq
    split
    · rename_i hnone
      have hlt := haimed n (by rw [hreq]; rfl)
      rw [List.getElem?_eq_getElem hlt] at hnone
      cases hnone
    · split
      · exact finish h hfree _
      · exact goOn h hc hfree ⟨haimed, n, want, hreq⟩ fun _ => id
  · rename_i n data hreq
    exact joinLine h hc hs hreq

theorem continueCall (h : Tended (· = k) none s) (hc : s.calls[k]? = some c) (hl : s.Lined k c)
    (hover : c.isOver = false) (hfresh : c.stage ≠ .fresh) (first : Bool) :
    Served k (s.continueCall first k c) := by
  have hwriting {n : Nat} {data : Bytes} (hreq : c.request = .write n data) (huses : c.UsesLock n) :
      Writing k n data c s := ⟨hc, hreq, huses, hl⟩
  have hsuits := (h.fits k c hc).suits
  unfold Session.continueCall
  split
  · rename_i n due hs
    have hno := Call.not_usesLock (c := c) (by rw [hs]; rfl)
    split
    · exact finish h (h.free hc hno) _
    · exact awaitAnswer h hc hs
  · rename_i hs
    have hno := Call.not_usesLock (c := c) (by rw [hs]; rfl)
    split
    · exact finish (leaveAccept h) ((leaveAccept h).free hc hno) _
    · exact awaitConn h hc hs
  · rename_i n want hs hreq
    exact awaitData h hc hs hreq
  · rename_i n data hs hreq
    have hw := hwriting hreq (Call.usesLock_iff.2 ⟨by rw [hs]; rfl, data, hreq⟩)
    split
    · exact sending h hw 0
    · rename_i hheld
      refine stop h fun b hb => ?_
      cases hc.symm.trans hb
      refine ⟨.inr (.inr ?_), hl⟩
      obtain ⟨d, hd, hk⟩ := hl n hw.uses
      unfold Parked
      rw [hs]
      refine ⟨n, d, by rw [hreq]; rfl, hd, (List.mem_append.1 hk).resolve_left fun hholds => hheld ?_⟩
      unfold holdsWriteLock
      rw [hd]
      simpa using hholds
  · rename_i written n data hs hreq
    exact sendOn h (hwriting hreq (Call.usesLock_iff.2 ⟨by rw [hs]; rfl, data, hreq⟩))
  · rename_i written n data hs hreq
    exact awaitCredit h (hwriting hreq (Call.usesLock_iff.2 ⟨by rw [hs]; rfl, data, hreq⟩))
  · -- no other stage goes with another request
    rename_i h₁ h₂ h₃ h₄ h₅ h₆
    exfalso
    unfold Call.isOver at hover
    unfold Call.UsesLock at hsuits
    cases hs : c.stage with
    | fresh => exact hfresh hs
    | answering n due => exact h₁ n due hs
    | accepting => exact h₂ hs
    | reading =>
      rw [hs] at hsuits
      obtain ⟨n, want, hreq⟩ := hsuits
      exact h₃ n want hs hreq
    | inLine =>
      rw [hs] at hsuits
      obtain ⟨n, data, hreq⟩ := hsuits
      exact h₄ n data hs hreq
    | sending written =>
      rw [hs] at hsuits
      obtain ⟨n, data, hreq⟩ := hsuits
      exact h₅ written n data hs hreq
    | crediting written =>
      rw [hs] at hsuits
      obtain ⟨n, data, hreq⟩ := hsuits
      exact h₆ written n data hs hreq
    | _ => rw [hs] at hover; cases hover

theorem drop (h : Tended (· = k) none s) (hfree : s.Free k) :
    Tended nobody none (s.setStage k .dropped).reap :=
  (h.endStage (fun _ hj he => absurd he hj) hfree rfl).reap

theorem dropCall (h : Tended (· = k) none s) (hc : s.calls[k]? = some c) (hl : s.Lined k c) :
    Tended nobody none (s.dropCall k c) := by
  have hwriting {n : Nat} {data : Bytes} (hreq : c.request = .write n data) (huses : c.UsesLock n) :
      Writing k n data c s := ⟨hc, hreq, huses, hl⟩
  unfold Session.dropCall
  dsimp only
  split
  · rename_i hs
    exact drop (leaveAccept h) ((leaveAccept h).free hc (Call.not_usesLock (by rw [hs]; rfl)))
  · rename_i n want hs hreq
    have hleave : Tended (· = k) none (s.changeConn n fun c =>
        ({ c with inflow := (c.inflow.leave (.call k)).1 }, (c.inflow.leave (.call k)).2)) :=
      h.changeWindows (fun d _ => Conn.heeds_inflow_leave d k) (fun _ _ _ => .same rfl rfl rfl)
        fun _ => rfl
    refine drop hleave (hleave.free ((calls_changeConn ..).symm ▸ hc) (Call.not_usesLock ?_))
    rw [hs]
    rfl
  · rename_i written n data hs hreq
    have hw := hwriting hreq (Call.usesLock_iff.2 ⟨by rw [hs]; rfl, data, hreq⟩)
    have hleave : Tended (· = k) none (s.changeConn n fun c =>
        ({ c with outflow := (c.outflow.leave (.call k)).1 }, (c.outflow.leave (.call k)).2)) :=
      h.changeWindows (fun d _ => Conn.heeds_outflow_leave d k) (fun _ _ _ => .same rfl rfl rfl)
        fun _ => rfl
    have hboth := leaveWrite hleave (hw.changeConn fun _ => rfl)
    exact drop hboth.1 hboth.2
  · rename_i n data hs hreq
    have hboth := leaveWrite h (hwriting hreq (Call.usesLock_iff.2 ⟨by rw [hs]; rfl, data, hreq⟩))
    exact drop hboth.1 hboth.2
  · rename_i written n data hs hreq
    have hboth := leaveWrite h (hwriting hreq (Call.usesLock_iff.2 ⟨by rw [hs]; rfl, data, hreq⟩))
    exact drop hboth.1 hboth.2
  · rename_i h₁ h₂ h₃ h₄ h₅
    refine drop h (h.free hc fun m hm => ?_)
    obtain ⟨data, hreq⟩ := hm.request_eq
    unfold Call.UsesLock at hm
    cases hs : c.stage with
    | inLine => exact h₄ m data hs hreq
    | sending written => exact h₅ written m data hs hreq
    | crediting written => exact h₃ written m data hs hreq
    | _ => rw [hs] at hm; exact hm

theorem callTurn (h : Tended (· = k) none s) (hl : ∀ c, s.calls[k]? = some c → s.Lined k c)
    (first : Bool) : Served k (s.callTurn first k) := by
  unfold Session.callTurn
  split
  · rename_i hnone
    exact stop h fun b hb => by rw [hnone] at hb; cases hb
  · rename_i c hc
    split
    · rename_i hover
      refine stop h fun b hb => ?_
      cases hc.symm.trans hb
      exact ⟨.inl hover, hl c hc⟩
    · rename_i hover
      split
      · exact ⟨fun _ => dropCall h hc (hl c hc), fun ht => by cases ht⟩
      · split
        · rename_i hs
          exact beginCall h hc hs
        · rename_i hs
          exact continueCall h hc (hl c hc) (eq_false_of_ne_true hover) hs first

end Served

/-! ### Moves -/

namespace Tended

/-- A fiber leaves the line of those that are ready. -/
theorem erase (h : Tended nobody none s) (fiber : Fiber) :
    Tended (fun k => fiber = .call k) none ({ s with ready := s.ready.erase fiber } : Session) where
  calm := h.calm
  thrifty := h.thrifty
  rests k c hk ha := by
    obtain ⟨hplace, hlined⟩ := h.rests k c hk id
    refine ⟨?_, hlined⟩
    rcases hplace with hr | hr | hr
    · exact .inl hr
    · exact .inr (.inl ((List.mem_erase_of_ne fun he => ha he.symm).2 hr))
    · exact .inr (.inr hr)
  fits := h.fits
  members := h.members

theorem goOn (h : Tended away none s) (fiber : Fiber) : Tended away none (s.goOn fiber) :=
  h.frame rfl rfl rfl rfl (List.subset_cons_self ..)

theorem run (h : Tended nobody none s) (fiber : Fiber) (first : Bool) :
    Tended nobody none (s.run fiber first) := by
  have herase := h.erase fiber
  -- only a call can be away, and it is away only in its own turn
  have hloop : ∀ t : Session × Bool, Tended (fun k => fiber = .call k) none t.1 →
      (∀ k, fiber ≠ .call k) →
      Tended nobody none (if t.2 then t.1.goOn fiber else t.1) := by
    intro t ht hno
    have ht' : Tended nobody none t.1 := ht.mono fun k hk => absurd hk (hno k)
    split
    · exact ht'.goOn fiber
    · exact ht'
  rw [run_eq]
  unfold takeTurn
  cases fiber with
  | writer => exact hloop _ (herase.writerTurn first) fun k => by simp
  | reader => exact hloop _ (herase.readerTurn first) fun k => by simp
  | acceptor => exact hloop _ (herase.acceptorTurn first) fun k => by simp
  | pinger => exact hloop _ herase.pingerTurn fun k => by simp
  | returns => exact hloop _ (herase.returnsTurn first) fun k => by simp
  | call k =>
    have haway : Tended (· = k) none ({ s with ready := s.ready.erase (.call k) } : Session) :=
      herase.mono fun j hj => by cases hj; rfl
    have hserved := Served.callTurn haway (fun c hc => (h.rests k c hc id).lined) first
    split
    · rename_i hgoes
      obtain ⟨htended, hlined⟩ := hserved.goesOn hgoes
      refine (htended.goOn (.call k)).back fun j c hc hj => .inr ?_
      subst hj
      exact ⟨.inr (.inl (List.mem_cons_self ..)), hlined c hc⟩
    · rename_i hstops
      exact hserved.stopped (Bool.not_eq_true _ ▸ hstops)

theorem ask (h : Tended nobody none s) {request : Request} (hs : s.ask request = some s')
    (haimed : ∀ n, request.conn? = some n → n < s.conns.length) : Tended nobody none s' := by
  unfold Session.ask at hs
  split at hs
  · cases hs
    have hget {k : Nat} {c : Call} (hk : (s.calls ++ [({ request } : Call)])[k]? = some c) :
        s.calls[k]? = some c ∨ k = s.calls.length ∧ c = { request } := by
      rw [List.getElem?_append] at hk
      split at hk
      · exact .inl hk
      · rw [List.getElem?_singleton] at hk
        split at hk
        · cases hk
          exact .inr ⟨by omega, rfl⟩
        · cases hk
    refine ⟨h.calm, h.thrifty, fun k c hk _ => ?_, fun k c hk => ?_, fun n d k hd hk => ?_⟩
    · rcases hget hk with hk | ⟨rfl, rfl⟩
      · exact (h.rests k c hk id).frame rfl rfl fun _ hf => mem_ready_wake.2 (.inl hf)
      · exact ⟨.inr (.inl (mem_ready_wake.2 (.inr (List.mem_singleton_self _)))), .free fun _ => id⟩
    · rcases hget hk with hk | ⟨-, rfl⟩
      · exact h.fits k c hk
      · exact ⟨haimed, trivial⟩
    · obtain ⟨c, hc, huses⟩ := h.members n d k hd hk
      exact ⟨c, by rw [← hc]; exact List.getElem?_append_left (List.getElem?_eq_some_iff.1 hc).1, huses⟩
  · cases hs

theorem cancel (h : Tended nobody none s) (k : Nat) : Tended nobody none (s.cancel k) := by
  unfold Session.cancel
  split
  · exact h
  · split
    · exact h
    · refine Tended.wake (h.modifyCall (fun _ _ hj => hj) (fun c hc => ?_) (fun n d c hd hk hc => ?_)
        fun _ c hc => ?_) _
      · exact ⟨(h.fits k c hc).aimed, (h.fits k c hc).suits⟩
      · obtain ⟨b, hb, huses⟩ := h.members n d k hd hk
        cases hc.symm.trans hb
        exact huses
      · obtain ⟨hplace, hlined⟩ := h.rests k c hc id
        exact ⟨hplace, hlined⟩

theorem start (settings : Settings) (kind : LinkKind) (address : Option String)
    (capacity : Option Nat) (wall : Stamp) :
    Tended nobody none (.start settings kind address capacity wall) where
  calm n c hc := by cases hc
  thrifty n c hc := by cases hc
  rests k c hc := by cases hc
  fits k c hc := by cases hc
  members n d k hd := by cases hd

/-- No move forgets anybody. -/
theorem move (h : Tended nobody none s) {m : Move} (hm : s.move? m = some s')
    (haimed : ∀ n, s.owns n = true → n < s.conns.length) : Tended nobody none s' := by
  have hreading {t : Session} (ht : Tended nobody none t) : Tended nobody none t.wakeReading := by
    unfold wakeReading
    split
    · exact ht.wake _
    · exact ht
  have hwriting {t : Session} (ht : Tended nobody none t) : Tended nobody none t.wakeWriting := by
    unfold wakeWriting
    split
    · exact ht.wake _
    · exact ht
  have hinlet (inlet : Inlet) : Tended nobody none ({ s with inlet } : Session) :=
    h.still rfl rfl rfl rfl rfl
  have houtlet (outlet : Outlet) : Tended nobody none ({ s with outlet } : Session) :=
    h.still rfl rfl rfl rfl rfl
  cases m with
  | ask request =>
    refine h.ask hm fun n hn => haimed n ?_
    unfold move? Session.ask at hm
    dsimp only at hm
    split at hm
    · rename_i hmay
      cases request with
      | openConn => cases hn
      | accept => cases hn
      | read m want => cases hn; exact hmay
      | write m data => cases hn; exact hmay
    · cases hm
  | cancel k => cases hm; exact h.cancel k
  | close =>
    unfold move? close? at hm
    dsimp only at hm
    split at hm
    · split at hm
      · cases hm
      · cases hm; exact h.close
    · cases hm
  | dropHandle =>
    unfold move? at hm
    dsimp only at hm
    split at hm
    · cases hm
      have hdrop : Tended nobody none ({ s with handle := false } : Session) :=
        h.still rfl rfl rfl rfl rfl
      exact hdrop.reap
    · cases hm
  | closeConn n =>
    unfold move? at hm
    dsimp only at hm
    split at hm <;> cases hm
    exact h.closeConn n
  | deliver bytes => cases hm; exact hreading ((hinlet _).note _)
  | endInput ending => cases hm; exact hreading (hinlet _)
  | takeOutput count => cases hm; exact hwriting (houtlet _)
  | resizeOutput capacity => cases hm; exact hwriting (houtlet _)
  | breakOutput => cases hm; exact hwriting (houtlet _)
  | advance span =>
    cases hm
    have hnow : Tended nobody none ({ s with now := s.now + span } : Session) :=
      h.still rfl rfl rfl rfl rfl
    exact hnow.wake _
  | run fiber first =>
    unfold move? at hm
    dsimp only at hm
    split at hm <;> cases hm
    exact h.run fiber first

end Tended

/-! ### Runs -/

theorem Reachable.sound {settings : Settings} {kind : LinkKind} {address : Option String}
    {capacity : Option Nat} {wall : Stamp}
    (h : Reachable (start settings kind address capacity wall) s) : s.view.Sound settings :=
  (h.steps (coherent_start settings kind address capacity wall)).sound (View.sound_start settings)

/-- In every run everybody is tended. -/
theorem Reachable.tended {settings : Settings} {kind : LinkKind} {address : Option String}
    {capacity : Option Nat} {wall : Stamp}
    (h : Reachable (start settings kind address capacity wall) s) : Tended nobody none s := by
  induction h with
  | refl => exact .start ..
  | @move t t' m ht hm ih =>
    refine ih.move hm fun n hn => ?_
    have hlt := ht.sound.filed.handed_lt n (.inl (owns_view hn))
    simpa [view] using hlt

end Session

end StreamMux
