import StreamMux.Proofs.Records

/-! What the reader works with. The bytes that come in, the stage of the reader and the returned pings change
only in the turns of the reader and of the loop of the returned pings, and by the far end of the link. Whatever
else happens leaves them alone, and puts neither of the two to sleep. -/

namespace StreamMux

namespace Event

/-- Bytes come in, or a frame is acted on. -/
def isInput : Event → Bool
  | .arrived _ | .dispatched _ => true
  | _ => false

def arrived? : Event → Option Bytes
  | .arrived bytes => some bytes
  | _ => none

end Event

/-- What the reader and the loop of the returned pings work with, with all bytes that ever came in and the
frames that were acted on. -/
structure Supply where
  settings : Settings
  inlet : Inlet
  reader : ReaderStage
  pongs : List Bytes
  returns : ReturnsStage
  received : Bytes
  dispatched : List Frame

namespace Session

/-- All bytes that ever came in. -/
def received (s : Session) : Bytes := (history Event.arrived? s.trace).flatten

def supply (s : Session) : Supply :=
  ⟨s.settings, s.inlet, s.reader, s.pongs, s.returns, s.received, s.dispatched⟩

theorem supply_note {e : Event} (he : e.isInput = false) (s : Session) : (s.note e).supply = s.supply := by
  obtain ⟨harrived, hdispatched⟩ : e.arrived? = none ∧ e.dispatched? = none := by
    cases e <;> first | exact ⟨rfl, rfl⟩ | cases he
  simp [supply, note, received, dispatched, harrived, hdispatched]

/-- From `s` to `t` the supply stayed as it was, and who was ready is ready. -/
structure Steady (s t : Session) : Prop where
  supply : t.supply = s.supply
  ready : s.ready ⊆ t.ready

variable {s t u : Session}

namespace Steady

theorem refl (s : Session) : s.Steady s := ⟨rfl, List.Subset.refl _⟩

theorem trans (h : s.Steady t) (h' : t.Steady u) : s.Steady u :=
  ⟨h'.supply.trans h.supply, List.Subset.trans h.ready h'.ready⟩

/-- A change apart from the supply and the fibers that are ready. -/
theorem of_eq (h : s.Steady t) (hs : u.supply = t.supply) (hr : u.ready = t.ready) : s.Steady u :=
  h.trans ⟨hs, hr ▸ List.Subset.refl _⟩

/-! ### Small changes -/

theorem note (h : s.Steady t) {e : Event} (he : e.isInput = false) : s.Steady (t.note e) :=
  h.of_eq (supply_note he t) rfl

theorem wake (h : s.Steady t) (fibers : List Fiber) : s.Steady (t.wake fibers) :=
  h.trans ⟨rfl, fun _ hf => mem_ready_wake.2 (.inl hf)⟩

theorem changeConn (h : s.Steady t) (n : Nat) (change : Conn → Conn × List Fiber) :
    s.Steady (t.changeConn n change) := by
  refine h.trans ⟨?_, fun _ hf => mem_ready_changeConn hf⟩
  unfold Session.changeConn
  split <;> rfl

theorem post (h : s.Steady t) {out : Outgoing} (hp : t.post out = some u) : s.Steady u := by
  unfold Session.post at hp
  split at hp
  · cases hp
  · obtain ⟨⟨outbox, woken⟩, -, rfl⟩ := Option.map_eq_some_iff.1 hp
    exact ((h.of_eq (u := { t with outbox }) rfl rfl).note rfl).wake woken

theorem postOrDrop (h : s.Steady t) (out : Outgoing) : s.Steady (t.postOrDrop out) := by
  unfold Session.postOrDrop
  cases hp : t.post out with
  | none => exact h
  | some u => exact h.post hp

theorem reportCredit (h : s.Steady t) (n : Nat) : s.Steady (t.reportCredit n) := by
  unfold Session.reportCredit
  split
  · exact h
  · split
    · exact h
    · split
      · exact h
      · exact (h.changeConn n _).postOrDrop _

theorem shutConn (h : s.Steady t) (n : Nat) : s.Steady (t.shutConn n) := h.changeConn n _

theorem foldl_shutConn (h : s.Steady t) (conns : List Nat) :
    s.Steady (conns.foldl (fun s n => s.shutConn n) t) := by
  induction conns generalizing t with
  | nil => exact h
  | cons n conns ih => exact ih (h.shutConn n)

theorem closeConn (h : s.Steady t) (n : Nat) : s.Steady (t.closeConn n) := by
  unfold Session.closeConn
  split
  · exact h
  · split
    · exact h
    · have hstop := h.changeConn n fun c => { c with closed := true }.stopWindows
      dsimp only
      split
      · exact hstop.of_eq rfl rfl
      · exact (hstop.postOrDrop _).of_eq rfl rfl

/-! ### Ends -/

theorem stopOutbox (h : s.Steady t) : s.Steady t.stopOutbox :=
  (h.of_eq (u := { t with outbox := (Queue.drain t.outbox.stop.1).1 }) rfl rfl).wake _

theorem stopStaged (h : s.Steady t) : s.Steady t.stopStaged :=
  ((h.of_eq (u := { t with staged := (Queue.drain t.staged.stop.1).1 }) rfl rfl).wake _).foldl_shutConn _

theorem close (h : s.Steady t) : s.Steady t.close := by
  cases hc : t.closed
  · have hmarked : s.Steady { t with closed := true, registry := t.registry.close.1 } := h.of_eq rfl rfl
    have hemptied : s.Steady t.emptied := (hmarked.note rfl).foldl_shutConn _
    rw [close_of_open hc]
    exact (hemptied.wake _).stopOutbox.stopStaged
  · rw [Session.close, if_pos hc]
    exact h

theorem reap (h : s.Steady t) : s.Steady t.reap := by
  unfold Session.reap
  split
  · exact h
  · exact h.close

theorem finish (h : s.Steady t) (k : Nat) (outcome : Outcome) : s.Steady (t.finish k outcome) :=
  ((h.of_eq (u := t.setStage k (.over outcome)) rfl rfl).note rfl).reap

/-! ### Calls -/

theorem leaveAccept (h : s.Steady t) (k : Nat) : s.Steady (t.leaveAccept k) :=
  (h.of_eq (u := { t with acceptLock := (t.acceptLock.leave k).1 }) rfl rfl).wake _

theorem finishWrite (h : s.Steady t) (k n : Nat) (outcome : Outcome) : s.Steady (t.finishWrite k n outcome) :=
  (h.changeConn n _).finish k outcome

theorem refuse (h : s.Steady t) (n : Nat) : s.Steady (t.refuse n) := by
  unfold Session.refuse
  split
  · exact h
  · refine shutConn ?_ n
    exact h.of_eq rfl rfl

theorem requestUnder (drawn : Option (Int32 × IdSource)) (k : Nat) (s : Session) :
    s.Steady (s.requestUnder drawn k).1 := by
  unfold Session.requestUnder
  split
  · exact .refl s
  · rename_i id ids
    have hconn : s.Steady (({ s with ids } : Session).addConn id (.awaited k)).1 := (refl s).of_eq rfl rfl
    dsimp only
    split
    · exact hconn.finish ..
    · split
      · exact (hconn.of_eq rfl rfl).finish ..
      · rename_i registry _ _ _ hp
        have hregistry : s.Steady { (({ s with ids } : Session).addConn id (.awaited k)).1 with registry } :=
          hconn.of_eq rfl rfl
        exact ((hregistry.note rfl).post hp).of_eq rfl rfl

theorem awaitAnswer (k n : Nat) (due : Moment) (s : Session) : s.Steady (s.awaitAnswer k n due).1 := by
  unfold Session.awaitAnswer
  split
  · exact (refl s).finish ..
  · exact ((refl s).refuse n).finish ..
  · split
    · exact (refl s).finish ..
    · split
      · exact (refl s).finish ..
      · exact .refl s
  · exact (refl s).finish ..

theorem awaitConn (k : Nat) (s : Session) : s.Steady (s.awaitConn k).1 := by
  have hwake (t : Session) : t.Steady t.wakeAcceptor := by
    unfold wakeAcceptor
    split
    · exact (refl t).wake _
    · exact refl t
  unfold Session.awaitConn
  split
  · rename_i rest _ _
    have hrest : s.Steady { s with published := rest } := (refl s).of_eq rfl rfl
    exact ((hrest.trans (hwake _)).leaveAccept k).finish ..
  · split
    · exact ((refl s).leaveAccept k).finish ..
    · exact .refl s

theorem awaitData (k n : Nat) (want : Want) (s : Session) : s.Steady (s.awaitData k n want).1 := by
  unfold Session.awaitData
  split
  · exact .refl s
  · dsimp only
    split <;> dsimp only
    · exact (refl s).changeConn n _
    · exact ((((refl s).changeConn n _).note rfl).reportCredit n).finish ..

theorem awaitCredit (k n : Nat) (data : Bytes) (written : Nat) (s : Session) :
    s.Steady (s.awaitCredit k n data written).1 := by
  unfold Session.awaitCredit
  split
  · exact .refl s
  · have hspend (outflow : Outflow Fiber) : s.Steady (s.changeConn n fun c => ({ c with outflow }, [])) :=
      (refl s).changeConn n _
    dsimp only
    split
    · exact (hspend _).of_eq rfl rfl
    · exact (hspend _).finishWrite ..
    · unfold sendSegment
      dsimp only
      split
      · rename_i hp
        exact (((hspend _).note rfl).post hp).of_eq rfl rfl
      · exact ((hspend _).note rfl).finishWrite ..

theorem sendOn (k n : Nat) (data : Bytes) (written : Nat) (s : Session) :
    s.Steady (s.sendOn k n data written).1 := by
  unfold Session.sendOn
  split
  · exact .refl s
  · split
    · exact (refl s).finishWrite ..
    · split
      · exact (refl s).finishWrite ..
      · exact awaitCredit ..

theorem beginCall (k : Nat) (request : Request) (s : Session) : s.Steady (s.beginCall k request).1 := by
  unfold Session.beginCall
  split
  · split
    · exact (refl s).finish ..
    · exact requestUnder ..
  · split
    · exact (refl s).finish ..
    · exact (refl s).of_eq rfl rfl
  · split
    · exact .refl s
    · split
      · exact (refl s).finish ..
      · exact (refl s).of_eq rfl rfl
  · exact ((refl s).changeConn _ _).of_eq rfl rfl

theorem continueCall (first : Bool) (k : Nat) (c : Call) (s : Session) :
    s.Steady (s.continueCall first k c).1 := by
  unfold Session.continueCall
  split
  · split
    · exact (refl s).finish ..
    · exact awaitAnswer ..
  · split
    · exact ((refl s).leaveAccept k).finish ..
    · exact awaitConn ..
  · exact awaitData ..
  · split
    · exact (refl s).of_eq rfl rfl
    · exact refl s
  · exact sendOn ..
  · exact awaitCredit ..
  · exact .refl s

theorem dropCall (k : Nat) (c : Call) (s : Session) : s.Steady (s.dropCall k c) := by
  have hdrop {t : Session} (h : s.Steady t) : s.Steady (t.setStage k .dropped).reap :=
    reap (t := t.setStage k .dropped) (h.of_eq rfl rfl)
  unfold Session.dropCall
  dsimp only
  split
  · exact hdrop ((refl s).leaveAccept k)
  · exact hdrop ((refl s).changeConn _ _)
  · exact hdrop (((refl s).changeConn _ _).changeConn _ _)
  · exact hdrop ((refl s).changeConn _ _)
  · exact hdrop ((refl s).changeConn _ _)
  · exact hdrop (refl s)

theorem callTurn (first : Bool) (k : Nat) (s : Session) : s.Steady (s.callTurn first k).1 := by
  unfold Session.callTurn
  split
  · exact .refl s
  · split
    · exact .refl s
    · split
      · exact dropCall ..
      · split
        · exact beginCall ..
        · exact continueCall ..

/-! ### The other loops -/

theorem writerTurn (first : Bool) (s : Session) : s.Steady (s.writerTurn first).1 := by
  have hend {t : Session} (h : s.Steady t) : s.Steady t.endWriter := h.of_eq rfl rfl
  unfold Session.writerTurn
  split
  · exact .refl s
  · split
    · exact hend (refl s)
    · unfold nextFrame
      split
      · exact (refl s).of_eq rfl rfl
      · exact hend ((refl s).of_eq rfl rfl)
      · rename_i outbox out _
        have hstarted : s.Steady (({ s with outbox } : Session).note (.started out)) :=
          ((refl s).of_eq (u := { s with outbox }) rfl rfl).note rfl
        dsimp only
        split
        · exact hstarted.of_eq rfl rfl
        · exact hend hstarted.close
  · split
    · exact hend (refl s)
    · dsimp only [writeSome]
      split
      · exact hend (refl s).close
      · split
        · split
          · exact hend (refl s)
          · exact .refl s
        · refine note ?_ rfl
          exact (refl s).of_eq rfl rfl

theorem acceptorTurn (first : Bool) (s : Session) : s.Steady (s.acceptorTurn first).1 := by
  have hend {t : Session} (h : s.Steady t) : s.Steady t.endAcceptor := h.of_eq rfl rfl
  unfold Session.acceptorTurn
  split
  · exact .refl s
  · split
    · exact hend (refl s)
    · unfold nextStaged
      split
      · exact (refl s).of_eq rfl rfl
      · exact hend ((refl s).of_eq rfl rfl)
      · rename_i staged conn _
        have hpop : s.Steady { s with staged } := (refl s).of_eq rfl rfl
        unfold decideConn
        split
        · exact hpop
        · dsimp only
          split
          · rename_i registry _
            exact ((hpop.of_eq (u := { s with staged, registry, acceptor := .publishing conn }) rfl rfl).note
              rfl).note rfl
          · exact ((hpop.shutConn conn).note rfl).postOrDrop _
  · split
    · exact hend (refl s)
    · unfold publish
      rename_i conn _ _
      split
      · have hpublished : s.Steady
            (({ s with published := s.published ++ [conn] } : Session).note (.published conn)) :=
          ((refl s).of_eq (u := { s with published := s.published ++ [conn] }) rfl rfl).note rfl
        dsimp only
        split
        · unfold confirm
          split
          · rename_i hp
            exact ((hpublished.wake _).post hp).of_eq rfl rfl
          · exact hend (hpublished.wake _)
        · exact hpublished.wake _
      · split
        · exact hend (refl s)
        · exact .refl s

theorem pingerTurn (s : Session) : s.Steady s.pingerTurn.1 := by
  have hping {t : Session} (h : s.Steady t) : s.Steady t.sendPing :=
    (h.of_eq (u := t.readWall.1) rfl rfl).postOrDrop _
  have hawait {t : Session} (h : s.Steady t) (due : Moment) : s.Steady (t.awaitTick due) := h.of_eq rfl rfl
  have hcount : s.Steady s.countTick := by
    refine note ?_ rfl
    exact (refl s).of_eq rfl rfl
  have hend {t : Session} (h : s.Steady t) : s.Steady t.endPinger := h.of_eq rfl rfl
  unfold Session.pingerTurn
  split
  · exact .refl s
  · exact hawait (hping (refl s)) _
  · split
    · exact hend (refl s)
    · split
      · unfold tick
        dsimp only
        split
        · exact hend hcount.close
        · exact hawait (hping hcount) _
      · exact .refl s

/-! ### Frames -/

theorem pushSegment (h : s.Steady t) (n : Nat) (data : Bytes) (part : Bool) :
    s.Steady (t.pushSegment n data part) := by
  unfold Session.pushSegment
  split
  · exact h
  · split
    · exact h.closeConn n
    · exact (h.changeConn n _).note rfl

theorem route (h : s.Steady t) (f : Frame) : s.Steady (t.route f) := by
  unfold Session.route
  split
  · exact h
  · rename_i n _
    have hrouted : s.Steady (t.note (.routed n f)) := h.note rfl
    unfold applyFrame
    split
    · exact hrouted.pushSegment ..
    · exact hrouted.pushSegment ..
    · exact hrouted.changeConn ..
    · exact hrouted.changeConn ..
    · exact hrouted.changeConn ..
    · exact hrouted.changeConn ..
    · exact hrouted

theorem stage (h : s.Steady t) (id : Int32) : s.Steady (t.stage id) := by
  have hadd : s.Steady ((t.addConn id .unasked).1.note (.staged (t.addConn id .unasked).2)) :=
    (h.of_eq (u := (t.addConn id .unasked).1) rfl rfl).note rfl
  unfold Session.stage
  dsimp only
  split
  · refine wake ?_ _
    exact hadd.of_eq rfl rfl
  · exact hadd.shutConn _

end Steady

/-- What a frame does, but that the reader has acted on it. -/
theorem Steady.dispatch (f : Frame) (s : Session) :
    ∃ t, (({ s with reader := .between } : Session).note (.dispatched f)).Steady t ∧
      (s.dispatch f = t ∨ ∃ payload, s.dispatch f = { t with reader := .handing payload }) := by
  have hrefl := Steady.refl (({ s with reader := .between } : Session).note (.dispatched f))
  unfold Session.dispatch
  dsimp only
  split
  · exact ⟨_, hrefl.stage _, .inl rfl⟩
  · exact ⟨_, hrefl.postOrDrop _, .inl rfl⟩
  · rename_i payload _ _
    exact ⟨_, hrefl, .inr ⟨payload, rfl⟩⟩
  · exact ⟨_, hrefl, .inl rfl⟩
  · exact ⟨_, hrefl, .inl rfl⟩
  · exact ⟨_, hrefl.route _, .inl rfl⟩

/-! ### The two loops -/

/-- What a turn of the reader makes of `s`, and whether the reader goes on. -/
inductive ReaderFeeds (s t : Session) : Bool → Prop
  /-- It is over, or finds no room for a returned ping. -/
  | stays (why : s.reader = .over ∨
        ∃ payload, s.reader = .handing payload ∧ s.settings.pongRoom ≤ s.pongs.length)
      (same : t = s) : ReaderFeeds s t false
  | leaves (ended : s.closed = true) (ready : t.ready = s.ready)
      (supply : t.supply = { s.supply with reader := .over }) : ReaderFeeds s t false
  | drops {payload : Bytes} (ended : s.closed = true) (stage : s.reader = .handing payload)
      (supply : t.supply = { s.supply with reader := .between }) : ReaderFeeds s t true
  | starts (running : s.closed = false) (stage : s.reader = .between) (closed : t.closed = s.closed)
      (ready : s.ready ⊆ t.ready) (supply : t.supply = { s.supply with reader := .reading .start }) :
      ReaderFeeds s t true
  /-- A frame is complete, and acted on. -/
  | takes {d : Decoder} {f : Frame} {rest : Bytes} {reader : ReaderStage} (stage : s.reader = .reading d)
      (run : d.run s.settings.maxSegment s.inlet.bytes = .frame f rest)
      (next : reader = .between ∨ ∃ payload, reader = .handing payload) (closed : t.closed = s.closed)
      (ready : s.ready ⊆ t.ready) (supply : t.supply = { s.supply with
        inlet := { s.inlet with bytes := rest }, reader, dispatched := s.dispatched ++ [f] }) :
      ReaderFeeds s t true
  | faults {d : Decoder} {cause : FrameError} {rest : Bytes} (stage : s.reader = .reading d)
      (run : d.run s.settings.maxSegment s.inlet.bytes = .error cause rest) (ended : t.closed = true)
      (supply : t.supply = { s.supply with inlet := { s.inlet with bytes := rest }, reader := .over }) :
      ReaderFeeds s t false
  /-- No more bytes will complete the frame. -/
  | ends {d d' : Decoder} (stage : s.reader = .reading d)
      (run : d.run s.settings.maxSegment s.inlet.bytes = .short d')
      (why : s.closed = true ∨ s.inlet.ending.isSome = true) (ended : t.closed = true)
      (supply : t.supply = { s.supply with inlet := { s.inlet with bytes := [] }, reader := .over }) :
      ReaderFeeds s t false
  | waits {d d' : Decoder} (stage : s.reader = .reading d)
      (run : d.run s.settings.maxSegment s.inlet.bytes = .short d') (running : s.closed = false)
      (more : s.inlet.ending = none) (closed : t.closed = s.closed) (ready : t.ready = s.ready)
      (supply : t.supply = { s.supply with inlet := { s.inlet with bytes := [] }, reader := .reading d' }) :
      ReaderFeeds s t false
  | hands {payload : Bytes} (stage : s.reader = .handing payload)
      (room : s.pongs.length < s.settings.pongRoom) (closed : t.closed = s.closed)
      (ready : s.ready ⊆ t.ready) (wakes : .returns ∈ t.ready)
      (supply : t.supply = { s.supply with reader := .between, pongs := s.pongs ++ [payload] }) :
      ReaderFeeds s t true

theorem readerFeeds (first : Bool) (s : Session) :
    ReaderFeeds s (s.readerTurn first).1 (s.readerTurn first).2 := by
  unfold readerTurn
  split
  · rename_i hstage
    exact .stays (.inl hstage) rfl
  · rename_i hstage
    split
    · rename_i hclosed
      exact .leaves hclosed rfl rfl
    · rename_i hopen
      exact .starts (by simpa using hopen) hstage rfl (List.Subset.refl _) rfl
  · rename_i d hstage
    split
    · rename_i hclosed
      exact .leaves hclosed.1 rfl rfl
    · unfold readSome
      split
      · rename_i f rest hrun
        obtain ⟨t, hsteady, ht⟩ := Steady.dispatch f { s with
          inlet := { s.inlet with bytes := rest }
          throughput := s.throughput.add f.bytes.length
          idleTicks := 0 }
        have hsupply : t.supply = { s.supply with
            inlet := { s.inlet with bytes := rest }, reader := .between, dispatched := s.dispatched ++ [f] } := by
          rw [hsteady.supply]
          simp [supply, note, received, dispatched, Event.arrived?, Event.dispatched?]
        have hclosed := closed_dispatch f { s with
          inlet := { s.inlet with bytes := rest }
          throughput := s.throughput.add f.bytes.length
          idleTicks := 0 }
        dsimp only [receive]
        rcases ht with ht | ⟨payload, ht⟩
        · exact .takes hstage hrun (.inl rfl) hclosed (ht ▸ hsteady.ready) (ht ▸ hsupply)
        · refine .takes hstage hrun (.inr ⟨payload, rfl⟩) hclosed (ht ▸ hsteady.ready) ?_
          rw [ht]
          exact congrArg (fun x : Supply => { x with reader := .handing payload }) hsupply
      · rename_i hrun
        refine .faults hstage hrun (closed_close _) ?_
        exact congrArg (fun x : Supply => { x with reader := .over }) ((Steady.refl _).close).supply
      · rename_i d' hrun
        dsimp only
        split
        · rename_i hclosed
          exact .ends hstage hrun (.inl hclosed) hclosed rfl
        · rename_i hopen
          split
          · rename_i hend
            refine .ends hstage hrun (.inr hend) (closed_close _) ?_
            exact congrArg (fun x : Supply => { x with reader := .over }) ((Steady.refl _).close).supply
          · rename_i hmore
            exact .waits hstage hrun (by simpa using hopen) (by simpa using hmore) rfl rfl rfl
  · rename_i payload hstage
    split
    · rename_i hclosed
      exact .drops hclosed.1 hstage rfl
    · unfold handPong
      split
      · rename_i hroom
        exact .hands hstage hroom rfl (fun _ hf => mem_ready_wake.2 (.inl hf))
          (mem_ready_wake.2 (.inr (by simp))) rfl
      · rename_i hfull
        split
        · rename_i hclosed
          exact .drops hclosed hstage rfl
        · exact .stays (.inr ⟨payload, hstage, Nat.le_of_not_lt hfull⟩) rfl

/-- What a turn of the loop of the returned pings makes of `s`, and whether that goes on. -/
inductive ReturnsFeeds (s t : Session) : Bool → Prop
  | stays (why : s.returns = .over ∨ s.pongs = []) (same : t = s) : ReturnsFeeds s t false
  | leaves (ended : s.closed = true) (ready : t.ready = s.ready)
      (supply : t.supply = { s.supply with returns := .over }) : ReturnsFeeds s t false
  | handles {payload : Bytes} {rest : List Bytes} (queue : s.pongs = payload :: rest)
      (closed : t.closed = s.closed) (ready : s.ready ⊆ t.ready)
      (wakes : ∀ payload, s.reader = .handing payload → .reader ∈ t.ready)
      (supply : t.supply = { s.supply with pongs := rest }) : ReturnsFeeds s t true

theorem returnsFeeds (first : Bool) (s : Session) :
    ReturnsFeeds s (s.returnsTurn first).1 (s.returnsTurn first).2 := by
  unfold returnsTurn
  split
  · rename_i hover
    exact .stays (.inl hover) rfl
  · split
    · rename_i hclosed
      exact .leaves hclosed.1 rfl rfl
    · split
      · rename_i payload rest hqueue
        let r : Session := { s with pongs := rest, misses := 0 }
        have hwaking : r.Steady r.wakeReader ∧ r.wakeReader.closed = s.closed ∧
            ∀ payload, s.reader = .handing payload → .reader ∈ r.wakeReader.ready := by
          unfold wakeReader
          split
          · exact ⟨(Steady.refl r).wake _, rfl, fun _ _ => mem_ready_wake.2 (.inr (by simp))⟩
          · rename_i hnot
            exact ⟨.refl r, rfl, fun payload hstage => absurd hstage (hnot payload)⟩
        obtain ⟨hwake, hclosed, hwakes⟩ := hwaking
        have hmeasure (t : Session) : (t.measure payload).supply = t.supply ∧
            (t.measure payload).closed = t.closed ∧ (t.measure payload).ready = t.ready := by
          unfold measure
          split
          · exact ⟨rfl, rfl, rfl⟩
          · dsimp only
            split <;> exact ⟨rfl, rfl, rfl⟩
        obtain ⟨hsupply, hclosed', hready⟩ := hmeasure (r.wakeReader.note (.returned payload))
        refine .handles hqueue (hclosed'.trans hclosed) ?_ (fun p hp => ?_) ?_
        · rw [handlePong, show _ = _ from hready]
          exact hwake.ready
        · rw [handlePong, show _ = _ from hready]
          exact hwakes p hp
        · exact hsupply.trans ((hwake.note rfl).supply)
      · rename_i hempty
        split
        · rename_i hclosed
          exact .leaves hclosed rfl rfl
        · exact .stays (.inr hempty) rfl

/-! ### Moves -/

/-- A turn of any other fiber leaves the supply alone. -/
theorem Steady.turn {fiber : Fiber} (hreader : fiber ≠ .reader) (hreturns : fiber ≠ .returns) (first : Bool)
    (s : Session) : s.Steady (s.turn first fiber).1 := by
  cases fiber with
  | writer => exact .writerTurn first s
  | reader => exact absurd rfl hreader
  | acceptor => exact .acceptorTurn first s
  | pinger => exact .pingerTurn s
  | returns => exact absurd rfl hreturns
  | call k => exact .callTurn first k s

/-- A move that is neither a turn nor of the far end's writing leaves the supply alone. -/
theorem Steady.move {m : Move} (hm : s.move? m = some t) (hrun : ∀ fiber first, m ≠ .run fiber first)
    (hdeliver : ∀ bytes, m ≠ .deliver bytes) (hend : ∀ ending, m ≠ .endInput ending) : s.Steady t := by
  have hwriting (t : Session) : t.Steady t.wakeWriting := by
    unfold wakeWriting
    split
    · exact (Steady.refl t).wake _
    · exact .refl t
  cases m with
  | ask request =>
    simp only [move?, ask] at hm
    split at hm <;> cases hm
    exact ((Steady.refl s).of_eq (u := { s with calls := s.calls ++ [{ request }] }) rfl rfl).wake _
  | cancel k =>
    cases hm
    unfold cancel
    split
    · exact .refl s
    · split
      · exact .refl s
      · exact ((Steady.refl s).of_eq (u := { s with calls := s.calls.modify k _ }) rfl rfl).wake _
  | close =>
    simp only [move?, close?] at hm
    split at hm
    · split at hm <;> cases hm
      exact (Steady.refl s).close
    · cases hm
  | dropHandle =>
    simp only [move?] at hm
    split at hm <;> cases hm
    exact ((Steady.refl s).of_eq (u := { s with handle := false }) rfl rfl).reap
  | closeConn n =>
    simp only [move?] at hm
    split at hm <;> cases hm
    exact (Steady.refl s).closeConn n
  | deliver bytes => exact absurd rfl (hdeliver bytes)
  | endInput ending => exact absurd rfl (hend ending)
  | takeOutput count =>
    cases hm
    refine Steady.trans ?_ (hwriting _)
    exact (Steady.refl s).of_eq rfl rfl
  | resizeOutput capacity =>
    cases hm
    refine Steady.trans ?_ (hwriting _)
    exact (Steady.refl s).of_eq rfl rfl
  | breakOutput =>
    cases hm
    refine Steady.trans ?_ (hwriting _)
    exact (Steady.refl s).of_eq rfl rfl
  | advance span =>
    cases hm
    exact ((Steady.refl s).of_eq (u := { s with now := s.now + span }) rfl rfl).wake _
  | run fiber first => exact absurd rfl (hrun fiber first)

/-- What a move makes of the supply. -/
inductive Feeds (s t : Session) : Move → Prop
  /-- It is neither loop's, and leaves the supply alone. -/
  | apart {m : Move} (others : ∀ first, m ≠ .run .reader first ∧ m ≠ .run .returns first)
      (supply : t.supply = s.supply)
      (ready : ∀ fiber, fiber = .reader ∨ fiber = .returns → fiber ∈ s.ready → fiber ∈ t.ready) :
      Feeds s t m
  | arrives (bytes : Bytes) (closed : t.closed = s.closed) (ready : s.ready ⊆ t.ready)
      (wakes : ∀ d, s.reader = .reading d → .reader ∈ t.ready) (supply : t.supply = { s.supply with
        inlet := { s.inlet with bytes := s.inlet.bytes ++ bytes }, received := s.received ++ bytes }) :
      Feeds s t (.deliver bytes)
  | stops (ending : Ending) (closed : t.closed = s.closed) (ready : s.ready ⊆ t.ready)
      (wakes : ∀ d, s.reader = .reading d → .reader ∈ t.ready) (supply : t.supply = { s.supply with
        inlet := { s.inlet with ending := some ending } }) : Feeds s t (.endInput ending)
  | reads {first goesOn : Bool} {u : Session}
      (turn : ReaderFeeds { s with ready := s.ready.erase .reader } u goesOn)
      (next : t = if goesOn then u.goOn .reader else u) : Feeds s t (.run .reader first)
  | returns {first goesOn : Bool} {u : Session}
      (turn : ReturnsFeeds { s with ready := s.ready.erase .returns } u goesOn)
      (next : t = if goesOn then u.goOn .returns else u) : Feeds s t (.run .returns first)

theorem feeds_move {m : Move} (hm : s.move? m = some t) : s.Feeds t m := by
  have hreading (r : Session) : r.Steady r.wakeReading ∧ r.wakeReading.closed = r.closed ∧
      ∀ d, r.reader = .reading d → .reader ∈ r.wakeReading.ready := by
    unfold wakeReading
    split
    · exact ⟨(Steady.refl r).wake _, rfl, fun _ _ => mem_ready_wake.2 (.inr (by simp))⟩
    · rename_i hnot
      exact ⟨.refl r, rfl, fun d hd => absurd hd (hnot d)⟩
  cases m with
  | deliver bytes =>
    cases hm
    let r : Session := ({ s with inlet := { s.inlet with bytes := s.inlet.bytes ++ bytes } } : Session).note
      (.arrived bytes)
    obtain ⟨hwake, hclosed, hwakes⟩ := hreading r
    refine .arrives bytes hclosed hwake.ready hwakes (hwake.supply.trans ?_)
    simp [r, supply, note, received, dispatched, Event.arrived?, Event.dispatched?]
  | endInput ending =>
    cases hm
    obtain ⟨hwake, hclosed, hwakes⟩ := hreading { s with inlet := { s.inlet with ending := some ending } }
    exact .stops ending hclosed hwake.ready hwakes hwake.supply
  | run fiber first =>
    simp only [move?] at hm
    split at hm <;> cases hm
    by_cases hreader : fiber = .reader
    · subst hreader
      exact .reads (readerFeeds first _) (run_eq ..)
    · by_cases hreturns : fiber = .returns
      · subst hreturns
        exact .returns (returnsFeeds first _) (run_eq ..)
      · have hturn := Steady.turn hreader hreturns first { s with ready := s.ready.erase fiber }
        obtain ⟨ready, he, hsub⟩ : ∃ ready, s.run fiber first = { (s.takeTurn fiber first).1 with ready } ∧
            (s.takeTurn fiber first).1.ready ⊆ ready := by
          rw [run_eq]
          split
          · exact ⟨_, rfl, List.subset_cons_self ..⟩
          · exact ⟨_, rfl, List.Subset.refl _⟩
        rw [he]
        refine .apart (fun _ => ⟨?_, ?_⟩) hturn.supply fun f hf hready =>
          hsub (hturn.ready ((List.mem_erase_of_ne ?_).2 hready))
        · exact fun h => hreader (Move.run.inj h).1
        · exact fun h => hreturns (Move.run.inj h).1
        · rcases hf with rfl | rfl
          · exact Ne.symm hreader
          · exact Ne.symm hreturns
  | _ =>
    have hsteady := Steady.move hm (by simp) (by simp) (by simp)
    exact .apart (fun _ => ⟨by simp, by simp⟩) hsteady.supply fun _ _ hf => hsteady.ready hf

end Session

end StreamMux
