import StreamMux.Proofs.History
import StreamMux.Pair

/-! What a session does at the ends of its link. Only the writer and the reader touch them: a turn of
the writer takes a frame from the queue or hands bytes to the link, a turn of the reader takes bytes
that have arrived and acts on at most one frame, and every other turn and move leaves them alone. -/

namespace StreamMux

/-- The ends of the link, with the frames that the writer took and those that the reader acted on. -/
structure Ends where
  maxSegment : Nat
  arrived : Bytes
  held : Bytes
  writer : WriterStage
  reader : ReaderStage
  started : List Outgoing
  dispatched : List Frame

namespace Session

def ends (s : Session) : Ends :=
  ⟨s.settings.maxSegment, s.inlet.bytes, s.outlet.held, s.writer, s.reader, s.started, s.dispatched⟩

variable {s s' : Session}

/-! ### What leaves the ends alone -/

theorem ends_note {e : Event} (hs : e.started? = none) (hd : e.dispatched? = none) (s : Session) :
    (s.note e).ends = s.ends := by
  simp [ends, note, started, dispatched, hs, hd]

@[simp] theorem ends_wake (fibers : List Fiber) (s : Session) : (s.wake fibers).ends = s.ends := rfl

@[simp] theorem ends_setStage (call : Nat) (stage : CallStage) (s : Session) :
    (s.setStage call stage).ends = s.ends := rfl

@[simp] theorem ends_setTimer (fiber : Fiber) (s : Session) : (s.setTimer fiber).ends = s.ends := rfl

@[simp] theorem ends_changeConn (conn : Nat) (change : Conn → Conn × List Fiber) (s : Session) :
    (s.changeConn conn change).ends = s.ends := by
  unfold changeConn
  split <;> rfl

theorem ends_post {out : Outgoing} (h : s.post out = some s') : s'.ends = s.ends := by
  unfold post at h
  split at h
  · cases h
  · obtain ⟨⟨outbox, woken⟩, -, rfl⟩ := Option.map_eq_some_iff.1 h
    rw [ends_wake, ends_note rfl rfl]
    rfl

@[simp] theorem ends_postOrDrop (out : Outgoing) (s : Session) : (s.postOrDrop out).ends = s.ends := by
  unfold postOrDrop
  cases hp : s.post out with
  | none => rfl
  | some t => exact ends_post hp

@[simp] theorem ends_closeConn (conn : Nat) (s : Session) : (s.closeConn conn).ends = s.ends := by
  unfold closeConn
  split
  · rfl
  · rename_i c _
    split
    · rfl
    · have hreg (t : Session) (registry : Registry Nat) : ({ t with registry } : Session).ends = t.ends :=
        rfl
      simp only [hreg]
      split <;> simp

@[simp] theorem ends_shutConn (conn : Nat) (s : Session) : (s.shutConn conn).ends = s.ends :=
  ends_changeConn ..

theorem ends_foldl_shutConn (conns : List Nat) (s : Session) :
    (conns.foldl (fun s conn => s.shutConn conn) s).ends = s.ends := by
  induction conns generalizing s with
  | nil => rfl
  | cons conn conns ih => rw [List.foldl_cons, ih, ends_shutConn]

@[simp] theorem ends_close (s : Session) : s.close.ends = s.ends := by
  unfold close
  split
  · rfl
  · have hstaged (t : Session) : t.stopStaged.ends = t.ends := by
      unfold stopStaged
      rw [ends_foldl_shutConn]
      rfl
    have houtbox (t : Session) : t.stopOutbox.ends = t.ends := rfl
    dsimp only
    rw [hstaged, houtbox, ends_wake, ends_foldl_shutConn, ends_note rfl rfl]
    rfl

@[simp] theorem ends_reap (s : Session) : s.reap.ends = s.ends := by
  unfold reap
  split <;> simp

@[simp] theorem ends_finish (call : Nat) (outcome : Outcome) (s : Session) :
    (s.finish call outcome).ends = s.ends := by
  rw [finish, ends_reap, ends_note rfl rfl, ends_setStage]

@[simp] theorem ends_reportCredit (conn : Nat) (s : Session) : (s.reportCredit conn).ends = s.ends := by
  unfold reportCredit
  split
  · rfl
  · split
    · rfl
    · split <;> simp

/-! ### Calls -/

theorem ends_requestUnder (drawn : Option (Int32 × IdSource)) (call : Nat) (s : Session) :
    (s.requestUnder drawn call).1.ends = s.ends := by
  unfold requestUnder
  split
  · rfl
  · dsimp only
    split
    · rw [ends_finish]; rfl
    · split
      · rw [ends_finish]; rfl
      · rename_i hp
        rw [ends_setTimer, ends_setStage, ends_post hp, ends_note rfl rfl]
        rfl

@[simp] theorem ends_refuse (conn : Nat) (s : Session) : (s.refuse conn).ends = s.ends := by
  unfold refuse
  split
  · rfl
  · rw [ends_shutConn]; rfl

theorem ends_awaitAnswer (call conn : Nat) (due : Moment) (s : Session) :
    (s.awaitAnswer call conn due).1.ends = s.ends := by
  unfold awaitAnswer
  split
  · simp
  · simp
  · split
    · simp
    · split <;> simp
  · simp

@[simp] theorem ends_leaveAccept (call : Nat) (s : Session) : (s.leaveAccept call).ends = s.ends := rfl

theorem ends_awaitConn (call : Nat) (s : Session) : (s.awaitConn call).1.ends = s.ends := by
  have hwake (t : Session) : t.wakeAcceptor.ends = t.ends := by
    unfold wakeAcceptor
    split <;> rfl
  unfold awaitConn
  split
  · simp only [ends_finish, ends_leaveAccept, hwake]
    rfl
  · split <;> simp

theorem ends_awaitData (call conn : Nat) (want : Want) (s : Session) :
    (s.awaitData call conn want).1.ends = s.ends := by
  unfold awaitData
  split
  · rfl
  · dsimp only
    split
    · simp
    · simp only [ends_finish, ends_reportCredit]
      rw [ends_note rfl rfl, ends_changeConn]

@[simp] theorem ends_leaveWrite (call conn : Nat) (s : Session) :
    (s.leaveWrite call conn).ends = s.ends := ends_changeConn ..

@[simp] theorem ends_finishWrite (call conn : Nat) (outcome : Outcome) (s : Session) :
    (s.finishWrite call conn outcome).ends = s.ends := by
  rw [finishWrite, ends_finish, ends_leaveWrite]

theorem ends_sendSegment (call conn : Nat) (id : Int32) (data : Bytes) (written credit : Nat)
    (s : Session) : (s.sendSegment call conn id data written credit).1.ends = s.ends := by
  unfold sendSegment
  dsimp only
  split
  · rename_i hp
    rw [ends_setStage, ends_post hp, ends_note rfl rfl]
  · exact ends_finishWrite ..

theorem ends_awaitCredit (call conn : Nat) (data : Bytes) (written : Nat) (s : Session) :
    (s.awaitCredit call conn data written).1.ends = s.ends := by
  unfold awaitCredit
  split
  · rfl
  · dsimp only
    split
    · rw [ends_setStage, ends_changeConn]
    · rw [ends_finishWrite, ends_changeConn]
    · rw [ends_sendSegment, ends_changeConn]

theorem ends_sendOn (call conn : Nat) (data : Bytes) (written : Nat) (s : Session) :
    (s.sendOn call conn data written).1.ends = s.ends := by
  unfold sendOn
  split
  · rfl
  · split
    · exact ends_finishWrite ..
    · split
      · exact ends_finishWrite ..
      · exact ends_awaitCredit ..

theorem ends_beginCall (call : Nat) (request : Request) (s : Session) :
    (s.beginCall call request).1.ends = s.ends := by
  unfold beginCall
  split
  · split
    · exact ends_finish ..
    · exact ends_requestUnder ..
  · split
    · exact ends_finish ..
    · rfl
  · split
    · rfl
    · split
      · exact ends_finish ..
      · rfl
  · rw [ends_setStage, ends_changeConn]

theorem ends_continueCall (first : Bool) (call : Nat) (c : Call) (s : Session) :
    (s.continueCall first call c).1.ends = s.ends := by
  unfold continueCall
  split
  · split
    · exact ends_finish ..
    · exact ends_awaitAnswer ..
  · split
    · rw [ends_finish, ends_leaveAccept]
    · exact ends_awaitConn ..
  · exact ends_awaitData ..
  · split <;> rfl
  · exact ends_sendOn ..
  · exact ends_awaitCredit ..
  · rfl

theorem ends_dropCall (call : Nat) (c : Call) (s : Session) : (s.dropCall call c).ends = s.ends := by
  unfold dropCall
  dsimp only
  rw [ends_reap, ends_setStage]
  split <;> simp

theorem ends_callTurn (first : Bool) (call : Nat) (s : Session) :
    (s.callTurn first call).1.ends = s.ends := by
  unfold callTurn
  split
  · rfl
  · split
    · rfl
    · split
      · exact ends_dropCall ..
      · split
        · exact ends_beginCall ..
        · exact ends_continueCall ..

/-! ### The acceptor and the pings -/

theorem ends_acceptorTurn (first : Bool) (s : Session) : (s.acceptorTurn first).1.ends = s.ends := by
  have hend (t : Session) : t.endAcceptor.ends = t.ends := rfl
  unfold acceptorTurn
  split
  · rfl
  · split
    · rfl
    · unfold nextStaged
      split
      · rfl
      · rfl
      · unfold decideConn
        split
        · rfl
        · dsimp only
          split
          · rw [ends_note rfl rfl, ends_note rfl rfl]; rfl
          · rw [ends_postOrDrop, ends_note rfl rfl, ends_shutConn]; rfl
  · split
    · rfl
    · unfold publish
      split
      · have hnote (t : Session) (n : Nat) : (t.note (.published n)).ends = t.ends :=
          ends_note rfl rfl t
        dsimp only
        split
        · unfold confirm
          split
          · rename_i hp
            have := ends_post hp
            rw [ends_wake, hnote] at this
            exact this
          · rw [hend, ends_wake, hnote]; rfl
        · rw [ends_wake, hnote]; rfl
      · split <;> rfl

theorem ends_pingerTurn (s : Session) : s.pingerTurn.1.ends = s.ends := by
  have hping (t : Session) : t.sendPing.ends = t.ends := by
    unfold sendPing
    dsimp only
    rw [ends_postOrDrop]
    rfl
  have hawait (t : Session) (due : Moment) : (t.awaitTick due).ends = t.ends := rfl
  have hcount (t : Session) : t.countTick.ends = t.ends := ends_note rfl rfl _
  have hend (t : Session) : t.endPinger.ends = t.ends := rfl
  unfold pingerTurn
  split
  · rfl
  · rw [hawait, hping]
  · split
    · rfl
    · split
      · unfold tick
        dsimp only
        split
        · rw [hend, ends_close, hcount]
        · rw [hawait, hping, hcount]
      · rfl

theorem ends_returnsTurn (first : Bool) (s : Session) : (s.returnsTurn first).1.ends = s.ends := by
  have hmeasure (payload : Bytes) (t : Session) : (t.measure payload).ends = t.ends := by
    unfold measure
    split
    · rfl
    · dsimp only; split <;> rfl
  have hwake (t : Session) : t.wakeReader.ends = t.ends := by
    unfold wakeReader
    split <;> rfl
  unfold returnsTurn
  split
  · rfl
  · split
    · rfl
    · split
      · rw [handlePong, hmeasure, ends_note rfl rfl, hwake]; rfl
      · split <;> rfl

/-! ### Frames that come in -/

theorem ends_pushSegment (conn : Nat) (data : Bytes) (part : Bool) (s : Session) :
    (s.pushSegment conn data part).ends = s.ends := by
  unfold pushSegment
  split
  · rfl
  · split
    · exact ends_closeConn ..
    · rw [ends_note rfl rfl, ends_changeConn]

theorem ends_route (f : Frame) (s : Session) : (s.route f).ends = s.ends := by
  unfold route
  split
  · rfl
  · rename_i conn _
    have hnote : (s.note (.routed conn f)).ends = s.ends := ends_note rfl rfl s
    unfold applyFrame
    split
    · rw [ends_pushSegment, hnote]
    · rw [ends_pushSegment, hnote]
    · rw [ends_changeConn, hnote]
    · rw [ends_changeConn, hnote]
    · rw [ends_changeConn, hnote]
    · rw [ends_changeConn, hnote]
    · exact hnote

theorem ends_stage (id : Int32) (s : Session) : (s.stage id).ends = s.ends := by
  unfold stage
  dsimp only
  split
  · rw [ends_wake]
    exact ends_note (e := .staged _) rfl rfl (s.addConn id .unasked).1
  · rw [ends_shutConn]
    exact ends_note rfl rfl (s.addConn id .unasked).1

/-- The reader is between two frames, or waits for room among the returned pings. -/
theorem ends_dispatch (f : Frame) (s : Session) :
    ∃ reader, (reader = .between ∨ ∃ payload, reader = .handing payload) ∧
      (s.dispatch f).ends = { s.ends with reader, dispatched := s.dispatched ++ [f] } := by
  have hnote : (({ s with reader := .between } : Session).note (.dispatched f)).ends =
      { s.ends with reader := .between, dispatched := s.dispatched ++ [f] } := by
    simp [ends, note, started, dispatched, Event.started?, Event.dispatched?]
  unfold dispatch
  dsimp only
  split
  · exact ⟨.between, .inl rfl, by rw [ends_stage, hnote]⟩
  · exact ⟨.between, .inl rfl, by rw [ends_postOrDrop, hnote]⟩
  · rename_i payload _ _
    refine ⟨.handing payload, .inr ⟨payload, rfl⟩, ?_⟩
    exact congrArg (fun x : Ends => { x with reader := .handing payload }) hnote
  · exact ⟨.between, .inl rfl, hnote⟩
  · exact ⟨.between, .inl rfl, hnote⟩
  · exact ⟨.between, .inl rfl, by rw [ends_route, hnote]⟩

end Session

/-! ### Turns -/

/-- What one turn does to the ends. -/
inductive Ends.Turn (x : Ends) : Ends → Prop
  | same : Turn x x
  /-- The writer takes a frame from the queue. -/
  | begin {out : Outgoing} {bytes : Bytes} (hw : x.writer = .idle)
      (he : out.frame.encode x.maxSegment = .ok bytes) :
      Turn x { x with writer := .writing bytes, started := x.started ++ [out] }
  /-- The writer takes a frame that cannot be written, and ends. -/
  | balk {out : Outgoing} (hw : x.writer = .idle) :
      Turn x { x with writer := .over, started := x.started ++ [out] }
  /-- The link takes bytes over. -/
  | write {chunk left : Bytes} (hw : x.writer = .writing (chunk ++ left)) :
      Turn x { x with
        writer := if left = [] then .idle else .writing left
        held := x.held ++ chunk }
  | quit : Turn x { x with writer := .over }
  /-- The reader is about to read a frame. -/
  | start (hr : x.reader = .between) : Turn x { x with reader := .reading .start }
  /-- The reader acts on a frame. -/
  | take {d : Decoder} {f : Frame} {rest : Bytes} {reader : ReaderStage} (hr : x.reader = .reading d)
      (hd : d.run x.maxSegment x.arrived = .frame f rest)
      (hreader : reader = .between ∨ ∃ payload, reader = .handing payload) :
      Turn x { x with arrived := rest, reader, dispatched := x.dispatched ++ [f] }
  /-- The reader takes all there is, and it is no whole frame. -/
  | gather {d d' : Decoder} {reader : ReaderStage} (hr : x.reader = .reading d)
      (hd : d.run x.maxSegment x.arrived = .short d') (hreader : reader = .reading d' ∨ reader = .over) :
      Turn x { x with arrived := [], reader }
  /-- The reader meets a fault, and ends. -/
  | fault {d : Decoder} {cause : FrameError} {rest : Bytes} (hr : x.reader = .reading d)
      (hd : d.run x.maxSegment x.arrived = .error cause rest) :
      Turn x { x with arrived := rest, reader := .over }
  /-- The reader has passed a returned ping on. -/
  | pass {payload : Bytes} (hr : x.reader = .handing payload) : Turn x { x with reader := .between }
  | leave : Turn x { x with reader := .over }

namespace Session

variable {s : Session}

theorem ends_endWriter (s : Session) : s.endWriter.ends = { s.ends with writer := .over } := rfl

theorem turn_writer (first : Bool) (s : Session) : Ends.Turn s.ends (s.writerTurn first).1.ends := by
  unfold writerTurn
  split
  · exact .same
  · rename_i hw
    split
    · exact .quit
    · unfold nextFrame
      split
      · exact .same
      · exact .quit
      · rename_i outbox out _
        have hnote : (({ s with outbox } : Session).note (.started out)).ends =
            { s.ends with started := s.started ++ [out] } := by
          simp [ends, note, started, dispatched, Event.started?, Event.dispatched?]
        dsimp only
        split
        · rename_i bytes he
          have : Ends.Turn s.ends { s.ends with
              writer := .writing bytes, started := s.started ++ [out] } := .begin hw he
          rw [show ({ (({ s with outbox } : Session).note (.started out)) with
              writer := .writing bytes } : Session).ends =
            { (({ s with outbox } : Session).note (.started out)).ends with
              writer := .writing bytes } from rfl, hnote]
          exact this
        · rw [ends_endWriter, ends_close, hnote]
          exact .balk hw
  · rename_i rest hw
    split
    · exact .quit
    · dsimp only [writeSome]
      split
      · rw [ends_endWriter, ends_close]
        exact .quit
      · split
        · split
          · exact .quit
          · exact .same
        · rw [ends_note rfl rfl]
          exact .write (hw.trans (by rw [Outlet.accepted_append]))

theorem turn_reader (first : Bool) (s : Session) : Ends.Turn s.ends (s.readerTurn first).1.ends := by
  have hend (t : Session) : t.endReader.ends = { t.ends with reader := .over } := rfl
  unfold readerTurn
  split
  · exact .same
  · rename_i hr
    split
    · exact .leave
    · exact .start hr
  · rename_i d hr
    split
    · exact .leave
    · unfold readSome
      split
      · rename_i f rest hd
        obtain ⟨reader, hreader, he⟩ := ends_dispatch f { s with
          inlet := { s.inlet with bytes := rest }
          throughput := s.throughput.add f.bytes.length
          idleTicks := 0 }
        show Ends.Turn s.ends (Session.ends _)
        rw [receive, he]
        exact .take hr hd hreader
      · rename_i hd
        rw [hend, ends_close]
        exact .fault hr hd
      · rename_i d' hd
        dsimp only
        split
        · exact .gather hr hd (.inr rfl)
        · split
          · rw [hend, ends_close]
            exact .gather hr hd (.inr rfl)
          · exact .gather hr hd (.inl rfl)
  · rename_i payload hr
    split
    · exact .pass hr
    · unfold handPong
      split
      · exact .pass hr
      · split
        · exact .pass hr
        · exact .same

theorem turn_takeTurn (fiber : Fiber) (first : Bool) (s : Session) :
    Ends.Turn s.ends (s.takeTurn fiber first).1.ends := by
  have hquiet (t : Session) (h : t.ends = s.ends) : Ends.Turn s.ends t.ends := h ▸ .same
  cases fiber with
  | writer => exact turn_writer first { s with ready := s.ready.erase .writer }
  | reader => exact turn_reader first { s with ready := s.ready.erase .reader }
  | acceptor => exact hquiet _ (ends_acceptorTurn ..)
  | pinger => exact hquiet _ (ends_pingerTurn _)
  | returns => exact hquiet _ (ends_returnsTurn ..)
  | call k => exact hquiet _ (ends_callTurn ..)

/-- The moves of a session alone leave its ends as they were. -/
theorem ends_of_own {m : Move} (hown : m.isOwn = true) {s' : Session} (h : s.move? m = some s') :
    s'.ends = s.ends := by
  cases m with
  | ask request =>
    simp only [move?, ask] at h
    split at h
    · cases h; rfl
    · cases h
  | cancel call =>
    cases h
    unfold cancel
    split
    · rfl
    · split <;> rfl
  | close =>
    simp only [move?, close?] at h
    split at h
    · split at h
      · cases h
      · cases h; exact ends_close s
    · cases h
  | dropHandle =>
    simp only [move?] at h
    split at h
    · cases h; exact ends_reap _
    · cases h
  | closeConn conn =>
    simp only [move?] at h
    split at h
    · cases h; exact ends_closeConn ..
    · cases h
  | resizeOutput capacity =>
    cases h
    unfold resizeOutput wakeWriting
    split <;> rfl
  | _ => cases hown

/-! What the far end of the link does to the ends. -/

theorem ends_deliver (bytes : Bytes) (s : Session) :
    (s.deliver bytes).ends = { s.ends with arrived := s.ends.arrived ++ bytes } := by
  have hwake (t : Session) : t.wakeReading.ends = t.ends := by
    unfold wakeReading
    split <;> rfl
  rw [deliver, hwake, ends_note rfl rfl]
  rfl

theorem ends_takeOutput (count : Nat) (s : Session) :
    (s.takeOutput count).ends = { s.ends with held := s.ends.held.drop count } := by
  unfold takeOutput wakeWriting
  split <;> rfl

theorem ends_endInput (ending : Ending) (s : Session) : (s.endInput ending).ends = s.ends := by
  unfold endInput wakeReading
  split <;> rfl

theorem ends_breakOutput (s : Session) : s.breakOutput.ends = s.ends := by
  unfold breakOutput wakeWriting
  split <;> rfl

end Session

end StreamMux
