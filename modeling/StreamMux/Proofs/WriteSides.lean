import StreamMux.Proofs.EndOfStream
import StreamMux.Proofs.Requests

/-! What the writes on a connection work with: its id, the lock that they take in turn, and the credit that is
left. Only the turns of the writes themselves change the lock and take credit, and only the reader adds to the
credit, when the peer grants some. Whatever else happens leaves all of it alone and queues no data. -/

namespace StreamMux

namespace Event

/-- Data enters the write queue, or credit is taken for it. -/
def isSending : Event → Bool
  | .queued out => out.frame.flag.isData
  | .spent _ _ _ => true
  | _ => false

end Event

/-- What the writes on a connection work with. -/
structure WriteSide where
  id : Int32
  lock : Lock Nat
  credit : UInt32

/-- What the peer grants is added, up to the largest number that the window can hold. -/
def WriteSide.grant (credit : UInt32) (w : WriteSide) : WriteSide :=
  { w with credit := UInt32.ofNat (min (w.credit.toNat + credit.toNat) 4294967295) }

namespace Conn

def writeSide (c : Conn) : WriteSide := ⟨c.id, c.writeLock, c.outflow.state.remaining⟩

/-- To close a connection stops the windows and takes no credit. -/
theorem writeSide_shutdown (c : Conn) : c.shutdown.1.writeSide = c.writeSide := by
  unfold shutdown
  dsimp only
  split <;> rfl

theorem writeSide_answer (accepted : Bool) (c : Conn) : (c.answer accepted).1.writeSide = c.writeSide := by
  unfold answer
  split <;> rfl

end Conn

namespace Session

/-- The write sides of all connections there have been. -/
def writeSides (s : Session) : List WriteSide := s.conns.map Conn.writeSide

variable {s t u : Session} {n k : Nat} {out : Outgoing}

/-- A change of a connection is one of its write side. -/
theorem writeSides_changeConn {change : Conn → Conn × List Fiber} {f : WriteSide → WriteSide}
    (h : ∀ c, (change c).1.writeSide = f c.writeSide) (n : Nat) (s : Session) :
    (s.changeConn n change).writeSides = s.writeSides.modify n f := by
  apply List.ext_getElem?
  intro m
  simp only [writeSides, List.getElem?_map, changeConn_getElem?, List.getElem?_modify]
  split
  · rename_i hm
    subst hm
    cases s.conns[n]? <;> simp [h]
  · cases s.conns[m]? <;> rfl

/-- From `s` to `t` no data was queued, no credit taken, and every write side stayed as it was. -/
structure Abstains (s t : Session) : Prop where
  sides : s.writeSides <+: t.writeSides
  trace : ∃ es, (∀ e ∈ es, e.isSending = false) ∧ t.trace = es ++ s.trace

namespace Abstains

theorem refl (s : Session) : s.Abstains s := ⟨List.prefix_refl _, [], by simp, rfl⟩

theorem trans (h : s.Abstains t) (h' : t.Abstains u) : s.Abstains u := by
  obtain ⟨es, hes, ht⟩ := h.trace
  obtain ⟨ds, hds, hu⟩ := h'.trace
  refine ⟨h.sides.trans h'.sides, ds ++ es, ?_, by rw [hu, ht, List.append_assoc]⟩
  intro e he
  rcases List.mem_append.1 he with he | he
  · exact hds e he
  · exact hes e he

/-- A change apart from the write sides and the trace. -/
theorem of_eq (h : s.Abstains t) (hs : u.writeSides = t.writeSides) (ht : u.trace = t.trace) :
    s.Abstains u := h.trans ⟨hs ▸ List.prefix_refl _, [], by simp, ht⟩

/-! ### Small changes -/

theorem note (h : s.Abstains t) {e : Event} (he : e.isSending = false) : s.Abstains (t.note e) :=
  h.trans ⟨List.prefix_refl _, [e], by simpa using he, rfl⟩

theorem wake (h : s.Abstains t) (fibers : List Fiber) : s.Abstains (t.wake fibers) := h.of_eq rfl rfl

theorem changeConn (h : s.Abstains t) (n : Nat) {change : Conn → Conn × List Fiber}
    (hc : ∀ c, (change c).1.writeSide = c.writeSide) : s.Abstains (t.changeConn n change) := by
  refine h.of_eq ?_ ?_
  · rw [writeSides_changeConn (f := id) hc, List.modify_id]
  · unfold Session.changeConn
    split <;> rfl

theorem addConn (h : s.Abstains t) (id : Int32) (reply : Reply) : s.Abstains (t.addConn id reply).1 := by
  have hmore : (t.addConn id reply).1.writeSides = t.writeSides ++ [(Conn.make t.settings id reply).writeSide] := by
    simp [writeSides, Session.addConn]
  exact h.trans ⟨hmore ▸ List.prefix_append .., [], by simp, rfl⟩

theorem post (h : s.Abstains t) (hp : t.post out = some u) (ho : out.frame.flag.isData = false) :
    s.Abstains u := by
  unfold Session.post at hp
  split at hp
  · cases hp
  · obtain ⟨⟨outbox, woken⟩, -, rfl⟩ := Option.map_eq_some_iff.1 hp
    have houtbox : s.Abstains { t with outbox } := h.of_eq rfl rfl
    exact (houtbox.note (e := .queued out) ho).wake woken

theorem postOrDrop (h : s.Abstains t) (ho : out.frame.flag.isData = false) : s.Abstains (t.postOrDrop out) := by
  unfold Session.postOrDrop
  cases hp : t.post out with
  | none => exact h
  | some u => exact h.post hp ho

theorem reportCredit (h : s.Abstains t) (n : Nat) : s.Abstains (t.reportCredit n) := by
  unfold Session.reportCredit
  split
  · exact h
  · split
    · exact h
    · split
      · exact h
      · exact (h.changeConn n fun _ => rfl).postOrDrop rfl

theorem shutConn (h : s.Abstains t) (n : Nat) : s.Abstains (t.shutConn n) :=
  h.changeConn n Conn.writeSide_shutdown

theorem foldl_shutConn (h : s.Abstains t) (conns : List Nat) :
    s.Abstains (conns.foldl (fun s n => s.shutConn n) t) := by
  induction conns generalizing t with
  | nil => exact h
  | cons n conns ih => exact ih (h.shutConn n)

theorem closeConn (h : s.Abstains t) (n : Nat) : s.Abstains (t.closeConn n) := by
  unfold Session.closeConn
  split
  · exact h
  · split
    · exact h
    · have hstop : s.Abstains (t.changeConn n fun c => { c with closed := true }.stopWindows) :=
        h.changeConn n fun _ => rfl
      dsimp only
      split
      · exact hstop.of_eq rfl rfl
      · exact (hstop.postOrDrop rfl).of_eq rfl rfl

/-! ### Ends -/

theorem stopOutbox (h : s.Abstains t) : s.Abstains t.stopOutbox := h.of_eq rfl rfl

theorem stopStaged (h : s.Abstains t) : s.Abstains t.stopStaged := by
  unfold Session.stopStaged
  apply foldl_shutConn
  exact h.of_eq rfl rfl

theorem close (h : s.Abstains t) : s.Abstains t.close := by
  cases hc : t.closed
  · have hmarked : s.Abstains { t with closed := true, registry := t.registry.close.1 } := h.of_eq rfl rfl
    have hemptied : s.Abstains t.emptied := (hmarked.note rfl).foldl_shutConn _
    rw [close_of_open hc]
    exact (hemptied.wake _).stopOutbox.stopStaged
  · rw [Session.close, if_pos hc]
    exact h

theorem reap (h : s.Abstains t) : s.Abstains t.reap := by
  unfold Session.reap
  split
  · exact h
  · exact h.close

theorem finish (h : s.Abstains t) (k : Nat) (outcome : Outcome) : s.Abstains (t.finish k outcome) := by
  apply reap
  apply note _ rfl
  exact h.of_eq rfl rfl

/-! ### Calls that do not write -/

theorem leaveAccept (h : s.Abstains t) (k : Nat) : s.Abstains (t.leaveAccept k) := h.of_eq rfl rfl

theorem refuse (h : s.Abstains t) (n : Nat) : s.Abstains (t.refuse n) := by
  unfold Session.refuse
  split
  · exact h
  · apply shutConn
    exact h.of_eq rfl rfl

theorem requestUnder (drawn : Option (Int32 × IdSource)) (k : Nat) (s : Session) :
    s.Abstains (s.requestUnder drawn k).1 := by
  unfold Session.requestUnder
  split
  · exact .refl s
  · rename_i id ids
    have hids : s.Abstains { s with ids } := (refl s).of_eq rfl rfl
    have hconn := hids.addConn id (.awaited k)
    dsimp only
    split
    · exact hconn.finish ..
    · rename_i registry _
      have hregistry : s.Abstains { (({ s with ids } : Session).addConn id (.awaited k)).1 with registry } :=
        hconn.of_eq rfl rfl
      have hregistered := hregistry.note
        (e := .registered (({ s with ids } : Session).addConn id (.awaited k)).2) rfl
      split
      · exact hconn.finish ..
      · rename_i hp
        exact (hregistered.post hp rfl).of_eq rfl rfl

theorem awaitAnswer (k n : Nat) (due : Moment) (s : Session) : s.Abstains (s.awaitAnswer k n due).1 := by
  unfold Session.awaitAnswer
  split
  · exact (refl s).finish ..
  · exact ((refl s).refuse n).finish ..
  · split
    · exact (refl s).finish ..
    · split
      · exact (refl s).finish ..
      · exact .refl s
  · exact (refl s).finish ..

theorem awaitConn (k : Nat) (s : Session) : s.Abstains (s.awaitConn k).1 := by
  have hwake (t : Session) : t.Abstains t.wakeAcceptor := by
    unfold wakeAcceptor
    split
    · exact (refl t).wake _
    · exact refl t
  unfold Session.awaitConn
  split
  · rename_i rest _ _
    have hrest : s.Abstains { s with published := rest } := (refl s).of_eq rfl rfl
    exact ((hrest.trans (hwake _)).leaveAccept k).finish ..
  · split
    · exact ((refl s).leaveAccept k).finish ..
    · exact .refl s

theorem awaitData (k n : Nat) (want : Want) (s : Session) : s.Abstains (s.awaitData k n want).1 := by
  unfold Session.awaitData
  split
  · exact .refl s
  · have htake (inflow : Inflow Fiber) : s.Abstains (s.changeConn n fun c => ({ c with inflow }, [])) :=
      (refl s).changeConn n fun _ => rfl
    dsimp only
    split <;> dsimp only
    · exact htake _
    · rename_i inflow taken _
      have hgiven := (htake inflow).note (e := .handedOut n taken) rfl
      exact (hgiven.reportCredit n).finish ..

theorem dropCall {c : Call} (hr : ∀ n data, c.request ≠ .write n data) (k : Nat) (s : Session) :
    s.Abstains (s.dropCall k c) := by
  have hdrop {t : Session} (h : s.Abstains t) : s.Abstains (t.setStage k .dropped).reap := by
    apply reap
    exact h.of_eq rfl rfl
  unfold Session.dropCall
  dsimp only
  split
  · exact hdrop ((refl s).leaveAccept k)
  · exact hdrop ((refl s).changeConn _ fun _ => rfl)
  · rename_i hwrite
    exact absurd hwrite (hr _ _)
  · rename_i hwrite
    exact absurd hwrite (hr _ _)
  · rename_i hwrite
    exact absurd hwrite (hr _ _)
  · exact hdrop (refl s)

/-- A turn of a call that is no write. -/
theorem callTurn {c : Call} (hc : s.calls[k]? = some c) (hr : ∀ n data, c.request ≠ .write n data)
    (first : Bool) : s.Abstains (s.callTurn first k).1 := by
  unfold Session.callTurn
  simp only [hc]
  split
  · exact .refl s
  · split
    · exact dropCall hr k s
    · split
      · unfold beginCall
        split
        · split
          · exact (refl s).finish ..
          · exact requestUnder ..
        · split
          · exact (refl s).finish ..
          · exact (refl s).of_eq rfl rfl
        · split
          · exact .refl s
          · split
            · exact (refl s).finish ..
            · exact (refl s).of_eq rfl rfl
        · rename_i hwrite
          exact absurd hwrite (hr _ _)
      · unfold continueCall
        split
        · split
          · exact (refl s).finish ..
          · exact awaitAnswer ..
        · split
          · exact ((refl s).leaveAccept k).finish ..
          · exact awaitConn ..
        · exact awaitData ..
        · rename_i hwrite
          exact absurd hwrite (hr _ _)
        · rename_i hwrite
          exact absurd hwrite (hr _ _)
        · rename_i hwrite
          exact absurd hwrite (hr _ _)
        · exact .refl s

/-! ### The loops but the reader -/

theorem writerTurn (first : Bool) (s : Session) : s.Abstains (s.writerTurn first).1 := by
  have hend {t : Session} (h : s.Abstains t) : s.Abstains t.endWriter := h.of_eq rfl rfl
  unfold Session.writerTurn
  split
  · exact .refl s
  · split
    · exact hend (refl s)
    · unfold nextFrame
      split
      · exact (refl s).of_eq rfl rfl
      · exact hend ((refl s).of_eq rfl rfl)
      · rename_i outbox out _
        have hpopped : s.Abstains { s with outbox } := (refl s).of_eq rfl rfl
        have hstarted := hpopped.note (e := .started out) rfl
        dsimp only
        split
        · exact hstarted.of_eq rfl rfl
        · exact hend hstarted.close
  · split
    · exact hend (refl s)
    · dsimp only [writeSome]
      split
      · exact hend (refl s).close
      · split
        · split
          · exact hend (refl s)
          · exact .refl s
        · apply note _ rfl
          exact (refl s).of_eq rfl rfl

theorem acceptorTurn (first : Bool) (s : Session) : s.Abstains (s.acceptorTurn first).1 := by
  have hend {t : Session} (h : s.Abstains t) : s.Abstains t.endAcceptor := h.of_eq rfl rfl
  unfold Session.acceptorTurn
  split
  · exact .refl s
  · split
    · exact hend (refl s)
    · unfold nextStaged
      split
      · exact (refl s).of_eq rfl rfl
      · exact hend ((refl s).of_eq rfl rfl)
      · rename_i staged n _
        have hpop : s.Abstains { s with staged } := (refl s).of_eq rfl rfl
        unfold decideConn
        split
        · exact hpop
        · dsimp only
          split
          · rename_i registry _
            have hentered : s.Abstains { s with staged, registry, acceptor := .publishing n } :=
              hpop.of_eq rfl rfl
            exact (hentered.note rfl).note rfl
          · exact ((hpop.shutConn n).note rfl).postOrDrop rfl
  · split
    · exact hend (refl s)
    · unfold publish
      rename_i n _ _
      split
      · have hready : s.Abstains { s with published := s.published ++ [n] } := (refl s).of_eq rfl rfl
        have hpublished := (hready.note (e := .published n) rfl).wake
          ((s.acceptLock.holder.map Fiber.call).toList)
        dsimp only
        split
        · unfold confirm
          split
          · rename_i hp
            exact (hpublished.post hp rfl).of_eq rfl rfl
          · exact hend hpublished
        · exact hpublished
      · split
        · exact hend (refl s)
        · exact .refl s

theorem pingerTurn (s : Session) : s.Abstains s.pingerTurn.1 := by
  have hping {t : Session} (h : s.Abstains t) : s.Abstains t.sendPing := by
    apply postOrDrop _ rfl
    exact h.of_eq rfl rfl
  have hawait {t : Session} (h : s.Abstains t) (due : Moment) : s.Abstains (t.awaitTick due) := h.of_eq rfl rfl
  have hcount : s.Abstains s.countTick := by
    apply note _ rfl
    exact (refl s).of_eq rfl rfl
  have hend {t : Session} (h : s.Abstains t) : s.Abstains t.endPinger := h.of_eq rfl rfl
  unfold Session.pingerTurn
  split
  · exact .refl s
  · exact hawait (hping (refl s)) _
  · split
    · exact hend (refl s)
    · split
      · unfold tick
        dsimp only
        split
        · exact hend hcount.close
        · exact hawait (hping hcount) _
      · exact .refl s

theorem returnsTurn (first : Bool) (s : Session) : s.Abstains (s.returnsTurn first).1 := by
  have hwake (t : Session) : t.Abstains t.wakeReader := by
    unfold wakeReader
    split
    · exact (refl t).wake _
    · exact refl t
  unfold Session.returnsTurn
  split
  · exact .refl s
  · split
    · exact (refl s).of_eq rfl rfl
    · split
      · rename_i payload rest _
        have htaken : s.Abstains { s with pongs := rest, misses := 0 } := (refl s).of_eq rfl rfl
        have hreturned := (htaken.trans (hwake _)).note (e := .returned payload) rfl
        unfold handlePong measure
        split
        · exact hreturned
        · dsimp only
          split
          · exact hreturned.of_eq rfl rfl
          · exact hreturned.of_eq rfl rfl
      · split
        · exact (refl s).of_eq rfl rfl
        · exact .refl s

/-! ### Frames -/

theorem pushSegment (h : s.Abstains t) (n : Nat) (data : Bytes) (part : Bool) :
    s.Abstains (t.pushSegment n data part) := by
  unfold Session.pushSegment
  split
  · exact h
  · split
    · exact h.closeConn n
    · exact (h.changeConn n fun _ => rfl).note rfl

theorem stage (h : s.Abstains t) (id : Int32) : s.Abstains (t.stage id) := by
  have hadd := (h.addConn id .unasked).note (e := .staged (t.addConn id .unasked).2) rfl
  unfold Session.stage
  dsimp only
  split
  · apply wake
    exact hadd.of_eq rfl rfl
  · exact hadd.shutConn _

end Abstains

/-! ### Changes of a write side -/

/-- From `s` to `t` the write side of a connection changed, and the events `es` are all that tell of data and
credit. -/
structure Acts (n : Nat) (change : WriteSide → WriteSide) (es : List Event) (s t : Session) : Prop where
  sides : s.writeSides.modify n change <+: t.writeSides
  trace : ∃ quiet, (∀ e ∈ quiet, e.isSending = false) ∧ t.trace = quiet ++ (es ++ s.trace)

theorem Abstains.acts {change : WriteSide → WriteSide} {es : List Event} (h : u.Abstains t)
    (hs : u.writeSides = s.writeSides.modify n change) (ht : u.trace = es ++ s.trace) : Acts n change es s t := by
  obtain ⟨quiet, hquiet, htrace⟩ := h.trace
  exact ⟨hs ▸ h.sides, quiet, hquiet, ht ▸ htrace⟩

/-- A frame leaves the write sides alone, or grants credit to one connection. -/
theorem route_cases (f : Frame) (s : Session) :
    s.Abstains (s.route f) ∨ ∃ n credit, Acts n (WriteSide.grant credit) [] s (s.route f) := by
  unfold route
  split
  · exact .inl (.refl s)
  · rename_i n _
    have hrouted : s.Abstains (s.note (.routed n f)) := (Abstains.refl s).note rfl
    unfold applyFrame
    split
    · exact .inl (hrouted.pushSegment ..)
    · exact .inl (hrouted.pushSegment ..)
    · exact .inl (hrouted.changeConn n (Conn.writeSide_answer true))
    · exact .inl (hrouted.changeConn n (Conn.writeSide_answer false))
    · right
      have hgrant (c : Conn) : (c.grant f.window).1.writeSide = c.writeSide.grant f.window := rfl
      have hsides := writeSides_changeConn hgrant n (s.note (.routed n f))
      refine ⟨n, f.window, hsides ▸ List.prefix_refl _, [.routed n f], by simp [Event.isSending], ?_⟩
      unfold changeConn
      split <;> rfl
    · exact .inl (hrouted.changeConn n fun _ => rfl)
    · exact .inl hrouted

theorem readerTurn_acts (first : Bool) (s : Session) :
    s.Abstains (s.readerTurn first).1 ∨
      ∃ n credit, Acts n (WriteSide.grant credit) [] s (s.readerTurn first).1 := by
  have hquiet {t : Session} (hs : t.writeSides = s.writeSides) (ht : t.trace = s.trace) : s.Abstains t :=
    (Abstains.refl s).of_eq hs ht
  unfold readerTurn
  split
  · exact .inl (.refl s)
  · split
    · exact .inl (hquiet rfl rfl)
    · exact .inl (hquiet rfl rfl)
  · split
    · exact .inl (hquiet rfl rfl)
    · unfold readSome
      split
      · rename_i f rest _
        -- the frame is noted before it is acted on
        let heard : Session := (({ s with
          inlet := { s.inlet with bytes := rest }
          throughput := s.throughput.add f.bytes.length
          idleTicks := 0
          reader := .between } : Session).note (.dispatched f))
        have hheard : s.Abstains heard := by
          apply Abstains.note _ rfl
          exact hquiet rfl rfl
        dsimp only [receive, dispatch]
        split
        · exact .inl (hheard.stage _)
        · exact .inl (hheard.postOrDrop rfl)
        · exact .inl (hheard.of_eq rfl rfl)
        · exact .inl hheard
        · exact .inl hheard
        · rcases route_cases f heard with hroute | ⟨n, credit, hsides, quiet, hes, htrace⟩
          · exact .inl (hheard.trans hroute)
          · refine .inr ⟨n, credit, hsides, quiet ++ [.dispatched f], ?_, ?_⟩
            · simpa [or_imp, forall_and, Event.isSending] using hes
            · rw [List.append_assoc]
              exact htrace
      · rename_i rest _
        have hrest : s.Abstains { s with inlet := { s.inlet with bytes := rest } } := hquiet rfl rfl
        exact .inl (hrest.close.of_eq rfl rfl)
      · dsimp only
        split
        · exact .inl (hquiet rfl rfl)
        · split
          · rename_i d _ _ _
            have hshort : s.Abstains { s with inlet := { s.inlet with bytes := [] }, reader := .reading d } :=
              hquiet rfl rfl
            exact .inl (hshort.close.of_eq rfl rfl)
          · exact .inl (hquiet rfl rfl)
  · split
    · exact .inl (hquiet rfl rfl)
    · unfold handPong
      split
      · exact .inl (hquiet rfl rfl)
      · split
        · exact .inl (hquiet rfl rfl)
        · exact .inl (.refl s)

/-! ### Moves -/

/-- A move that is no turn leaves the write sides alone. -/
theorem Abstains.move {m : Move} (hm : s.move? m = some t) (hrun : ∀ fiber first, m ≠ .run fiber first) :
    s.Abstains t := by
  have hreading (t : Session) : t.Abstains t.wakeReading := by
    unfold wakeReading
    split
    · exact (Abstains.refl t).wake _
    · exact .refl t
  have hwriting (t : Session) : t.Abstains t.wakeWriting := by
    unfold wakeWriting
    split
    · exact (Abstains.refl t).wake _
    · exact .refl t
  have hquiet {t : Session} (hs : t.writeSides = s.writeSides) (ht : t.trace = s.trace) : s.Abstains t :=
    (Abstains.refl s).of_eq hs ht
  cases m with
  | ask request =>
    simp only [move?, ask] at hm
    split at hm <;> cases hm
    exact hquiet rfl rfl
  | cancel k =>
    cases hm
    unfold cancel
    split
    · exact .refl s
    · split
      · exact .refl s
      · exact hquiet rfl rfl
  | close =>
    simp only [move?, close?] at hm
    split at hm
    · split at hm <;> cases hm
      exact (Abstains.refl s).close
    · cases hm
  | dropHandle =>
    simp only [move?] at hm
    split at hm <;> cases hm
    apply Abstains.reap
    exact hquiet rfl rfl
  | closeConn n =>
    simp only [move?] at hm
    split at hm <;> cases hm
    exact (Abstains.refl s).closeConn n
  | deliver bytes =>
    cases hm
    apply Abstains.trans _ (hreading _)
    apply Abstains.note _ rfl
    exact hquiet rfl rfl
  | endInput ending =>
    cases hm
    apply Abstains.trans _ (hreading _)
    exact hquiet rfl rfl
  | takeOutput count =>
    cases hm
    apply Abstains.trans _ (hwriting _)
    exact hquiet rfl rfl
  | resizeOutput capacity =>
    cases hm
    apply Abstains.trans _ (hwriting _)
    exact hquiet rfl rfl
  | breakOutput =>
    cases hm
    apply Abstains.trans _ (hwriting _)
    exact hquiet rfl rfl
  | advance span =>
    cases hm
    exact hquiet rfl rfl
  | run fiber first => exact absurd rfl (hrun fiber first)

/-- The call is a write of the data on the connection. -/
def Writes (k n : Nat) (data : Bytes) (s : Session) : Prop :=
  ∃ c, s.calls[k]? = some c ∧ c.request = .write n data

/-- But for the turns of writes and for credit that the reader adds, a move leaves the write sides alone. -/
theorem move_acts {m : Move} (hm : s.move? m = some t)
    (hnot : ∀ k n data first, s.Writes k n data → m ≠ .run (.call k) first) :
    s.Abstains t ∨ ∃ n credit first, m = .run .reader first ∧ Acts n (WriteSide.grant credit) [] s t := by
  by_cases hrun : ∃ fiber first, m = .run fiber first
  · obtain ⟨fiber, first, rfl⟩ := hrun
    simp only [move?] at hm
    split at hm <;> cases hm
    obtain ⟨ready, hready⟩ := exists_run fiber first s
    let r : Session := { s with ready := s.ready.erase fiber }
    have hturn (h : r.Abstains (r.turn first fiber).1) : s.Abstains (s.run fiber first) := by
      rw [hready]
      exact (((Abstains.refl s).of_eq (u := r) rfl rfl).trans h).of_eq rfl rfl
    cases fiber with
    | writer => exact .inl (hturn (.writerTurn first r))
    | reader =>
      rcases readerTurn_acts first r with habstains | ⟨n, credit, hsides, htrace⟩
      · exact .inl (hturn habstains)
      · rw [hready]
        exact .inr ⟨n, credit, first, rfl, hsides, htrace⟩
    | acceptor => exact .inl (hturn (.acceptorTurn first r))
    | pinger => exact .inl (hturn (.pingerTurn r))
    | returns => exact .inl (hturn (.returnsTurn first r))
    | call k =>
      rcases hc : s.calls[k]? with _ | c
      · have hnone : r.callTurn first k = (r, false) := by
          unfold callTurn
          rw [show r.calls[k]? = none from hc]
        apply Or.inl (hturn _)
        show r.Abstains (r.callTurn first k).1
        rw [hnone]
        exact .refl r
      · have hother (n : Nat) (data : Bytes) : c.request ≠ .write n data := fun hwrite =>
          hnot k n data first ⟨c, hc, hwrite⟩ rfl
        exact .inl (hturn (.callTurn (s := r) hc hother first))
  · exact .inl (.move hm fun fiber first he => hrun ⟨fiber, first, he⟩)

/-- A call goes on asking for what it asked for. -/
theorem Writes.move {m : Move} {data : Bytes} (h : s.Writes k n data) (hm : s.move? m = some t) :
    t.Writes k n data := by
  obtain ⟨c, hc, hr⟩ := h
  have hsame : (t.calls[k]?).map Call.request = (s.calls[k]?).map Call.request := by
    rcases calls_kept hm hc with ⟨first, rfl⟩ | hview
    · simp only [move?] at hm
      split at hm <;> cases hm
      exact (Spares.run first k s).request
    · have hrequests := congrArg (Option.map Prod.fst) hview
      rw [view_calls_getElem?, view_calls_getElem?, Option.map_map, Option.map_map] at hrequests
      exact hrequests
  rw [hc] at hsame
  obtain ⟨d, hd, hrequest⟩ := Option.map_eq_some_iff.1 hsame
  exact ⟨d, hd, hrequest.trans hr⟩

end Session

end StreamMux
