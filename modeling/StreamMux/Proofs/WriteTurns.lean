import StreamMux.Proofs.WriteSides

/-! The turns of a write. It asks for the lock of its connection and waits for its place in line. Then it takes
for each segment the credit that there is, and queues the segment in the same turn. When it ends, however that is,
it gives the lock back. -/

namespace StreamMux

/-- So much a write at this stage has sent, if it holds the lock. -/
def CallStage.sent? : CallStage → Option Nat
  | .sending written | .crediting written => some written
  | _ => none

namespace WriteSide

/-- A write asks for its turn. -/
def join (k : Nat) (w : WriteSide) : WriteSide := { w with lock := w.lock.request k }

/-- A write gives its turn up. -/
def leave (k : Nat) (w : WriteSide) : WriteSide := { w with lock := (w.lock.leave k).1 }

/-- So much credit is left. -/
def keep (credit : UInt32) (w : WriteSide) : WriteSide := { w with credit }

end WriteSide

namespace Session

variable {s t u : Session} {k n m : Nat} {data : Bytes} {w : WriteSide} {c : Call}

/-- From `s` to `t` a write reached a stage, changed the write side of its connection and recorded events. -/
structure Steps (k n : Nat) (stage : CallStage) (change : WriteSide → WriteSide) (es : List Event)
    (s t : Session) : Prop extends Acts n change es s t where
  calls : t.calls = s.calls.modify k fun c => { c with stage }

/-- The write has taken its turn's part, and nothing else that counts has happened. -/
structure Primed (n : Nat) (change : WriteSide → WriteSide) (es : List Event) (s u : Session) : Prop where
  sides : u.writeSides = s.writeSides.modify n change
  trace : u.trace = es ++ s.trace
  calls : u.calls = s.calls

namespace Primed

variable {change : WriteSide → WriteSide} {es : List Event}

theorem refl (n : Nat) (s : Session) : Primed n id [] s s := ⟨(List.modify_id ..).symm, rfl, rfl⟩

/-- Only what is done to the connection's own write side matters. -/
theorem congr {change' : WriteSide → WriteSide} (h : Primed n change es s u) (hw : s.writeSides[n]? = some w)
    (hsame : change w = change' w) : Primed n change' es s u where
  sides := by
    rw [h.sides]
    apply List.ext_getElem?
    intro j
    rw [List.getElem?_modify, List.getElem?_modify]
    split
    · rename_i hj
      rw [← hj, hw]
      exact congrArg some hsame
    · rfl
  trace := h.trace
  calls := h.calls

theorem changeConn (h : Primed n change es s u) {f : Conn → Conn × List Fiber} {g : WriteSide → WriteSide}
    (hf : ∀ c, (f c).1.writeSide = g c.writeSide) : Primed n (g ∘ change) es s (u.changeConn n f) where
  sides := by rw [writeSides_changeConn hf, h.sides, List.modify_modify_eq]
  trace := by
    rw [← h.trace]
    unfold Session.changeConn
    split <;> rfl
  calls := (calls_changeConn ..).trans h.calls

theorem of_changeConn {f : Conn → Conn × List Fiber} {g : WriteSide → WriteSide}
    (hf : ∀ c, (f c).1.writeSide = g c.writeSide) : Primed n g [] s (s.changeConn n f) :=
  (refl n s).changeConn hf

theorem leaveWrite (h : Primed n change es s u) (k : Nat) :
    Primed n (WriteSide.leave k ∘ change) es s (u.leaveWrite k n) := h.changeConn fun _ => rfl

theorem setStage (h : Primed n change es s u) (k : Nat) (stage : CallStage) :
    Steps k n stage change es s (u.setStage k stage) where
  sides := h.sides ▸ List.prefix_refl _
  trace := ⟨[], by simp, h.trace⟩
  calls := by rw [Session.setStage, h.calls]

theorem finishWrite (h : Primed n change es s u) (k : Nat) (outcome : Outcome) :
    Steps k n (.over outcome) (WriteSide.leave k ∘ change) es s (u.finishWrite k n outcome) := by
  have hleft := h.leaveWrite k
  refine ⟨((Abstains.refl _).finish k outcome).acts hleft.sides hleft.trace, ?_⟩
  show ((u.leaveWrite k n).finish k outcome).calls = _
  rw [calls_finish, Session.setStage, hleft.calls]

theorem drop (h : Primed n change es s u) (k : Nat) : Steps k n .dropped change es s (u.setStage k .dropped).reap := by
  have hreap : u.Abstains (u.setStage k .dropped).reap := by
    apply Abstains.reap
    exact (Abstains.refl u).of_eq rfl rfl
  exact ⟨hreap.acts h.sides h.trace, by rw [calls_reap, Session.setStage, h.calls]⟩

end Primed

/-- What a turn of a write of `data` does, on a connection with the write side `w`. -/
inductive WriteTurn (k n : Nat) (data : Bytes) (w : WriteSide) (c : Call) (s t : Session) : Prop
  /-- It is over, or not the first in line. -/
  | waits (calls : t.calls = s.calls) (abstains : s.Abstains t)
  | joins (stage : c.stage = .fresh) (steps : Steps k n .inLine (WriteSide.join k) [] s t)
  | begins (stage : c.stage = .inLine) (turn : w.lock.holder = some k) (steps : Steps k n (.sending 0) id [] s t)
  /-- It waits for credit. -/
  | sleeps {m : Nat} (stage : c.stage.sent? = some m) (more : m < data.length)
      (steps : Steps k n (.crediting m) id [] s t)
  | sends {m credit : Nat} {left : UInt32} (stage : c.stage.sent? = some m) (more : m < data.length)
      (some_credit : 0 < credit) (fits : credit ≤ min (data.length - m) s.settings.maxSegment)
      (paid : left.toNat + credit = w.credit.toNat)
      (steps : Steps k n (.sending (m + credit)) (WriteSide.keep left)
        [.queued { frame := .data w.id ((data.drop m).take credit) (m + credit < data.length), conn := n, call := k },
          .spent n k credit] s t)
  /-- It takes credit in a session that has ended. -/
  | wastes {m credit : Nat} {left : UInt32} (stage : c.stage.sent? = some m) (more : m < data.length)
      (some_credit : 0 < credit) (fits : credit ≤ min (data.length - m) s.settings.maxSegment)
      (paid : left.toNat + credit = w.credit.toNat) (ended : s.closed = true)
      (steps : Steps k n (.over (.failed .sessionClosed)) (WriteSide.leave k ∘ WriteSide.keep left)
        [.spent n k credit] s t)
  | fails {m : Nat} (cause : MuxError) (stage : c.stage.sent? = some m) (more : m < data.length)
      (steps : Steps k n (.over (.failed cause)) (WriteSide.leave k) [] s t)
  | completes {m : Nat} (stage : c.stage = .sending m) (whole : data.length ≤ m)
      (steps : Steps k n (.over (.written m)) (WriteSide.leave k) [] s t)
  /-- It was given up with data left to send. -/
  | drops (change : WriteSide → WriteSide) (live : c.isOver = false)
      (more : ∀ m, c.stage = .sending m → m < data.length) (leaves : change = id ∨ change = WriteSide.leave k)
      (steps : Steps k n .dropped change [] s t)

/-- What credit a write takes, the window loses; a write that is given none changes nothing. -/
theorem acquire_cases {outflow outflow' : Outflow Fiber} {f : Fiber} {want : Nat} {answer : Option (Option Nat)}
    (h : outflow.acquire f want = (outflow', answer)) :
    (∃ credit, answer = some (some credit) ∧ (0 < want → 0 < credit) ∧ credit ≤ want ∧
      outflow'.state.remaining.toNat + credit = outflow.state.remaining.toNat) ∨
    (answer = none ∨ answer = some none) ∧ outflow'.state.remaining = outflow.state.remaining := by
  match answer with
  | none =>
    refine .inr ⟨.inl rfl, ?_⟩
    rcases Monitor.state_of_poll_none h with hsame | hlook
    · rw [hsame]
    · rw [SendWindow.eq_of_acquire hlook (by simp)]
  | some none =>
    refine .inr ⟨.inr rfl, ?_⟩
    rw [SendWindow.eq_of_acquire (Monitor.look_of_poll h) (by simp)]
  | some (some credit) =>
    have hlook := Monitor.look_of_poll h
    obtain ⟨-, -, hpaid⟩ := SendWindow.acquire_some hlook
    exact .inl ⟨credit, rfl, SendWindow.pos_of_acquire hlook, SendWindow.le_of_acquire hlook, hpaid⟩

/-- A write that has taken credit queues a segment of that size. -/
theorem writeTurn_sendSegment (hco : s.view.Coherent) (stage : c.stage.sent? = some m) (more : m < data.length)
    {credit : Nat} {left : UInt32} (some_credit : 0 < credit)
    (fits : credit ≤ min (data.length - m) s.settings.maxSegment) (paid : left.toNat + credit = w.credit.toNat)
    (hu : Primed n (WriteSide.keep left) [] s u) (hclosed : u.closed = s.closed) (houtbox : u.outbox = s.outbox) :
    WriteTurn k n data w c s (u.sendSegment k n w.id data m credit).1 := by
  have hspent : Primed n (WriteSide.keep left) [.spent n k credit] s (u.note (.spent n k credit)) :=
    ⟨hu.sides, congrArg (_ :: ·) hu.trace, hu.calls⟩
  unfold sendSegment
  dsimp only
  split
  · rename_i v hp
    refine .sends stage more some_credit fits paid (Primed.setStage ?_ k _)
    unfold post at hp
    split at hp
    · cases hp
    · obtain ⟨⟨outbox, woken⟩, -, rfl⟩ := Option.map_eq_some_iff.1 hp
      exact ⟨hspent.sides, congrArg (_ :: ·) hspent.trace, hspent.calls⟩
  · rename_i hp
    refine .wastes stage more some_credit fits paid ?_ (hspent.finishWrite k _)
    -- the queue of an open session takes every frame
    cases hopen : s.closed
    · have hrunning : u.outbox.state.stopped = false := by
        rw [houtbox]
        exact hco.outbox.trans hopen
      obtain ⟨_, _, -, hpost⟩ := exists_post (s := u.note (.spent n k credit)) (hclosed.trans hopen) hrunning _
      rw [hp] at hpost
      cases hpost
    · rfl

/-- A write that has more to send takes credit for a segment, if there is some. -/
theorem writeTurn_awaitCredit (hco : s.view.Coherent) (hlimit : 1 ≤ s.settings.maxSegment)
    (hw : s.writeSides[n]? = some w) (stage : c.stage.sent? = some m) (more : m < data.length) :
    WriteTurn k n data w c s (s.awaitCredit k n data m).1 := by
  obtain ⟨d, hd, rfl⟩ : ∃ d, s.conns[n]? = some d ∧ d.writeSide = w := by
    simpa [writeSides] using hw
  rcases hacquire : d.outflow.acquire (.call k) (min (data.length - m) s.settings.maxSegment) with
    ⟨outflow, answer⟩
  have hprimed : Primed n (WriteSide.keep outflow.state.remaining) [] s
      (s.changeConn n fun c => ({ c with outflow }, [])) := .of_changeConn fun _ => rfl
  unfold awaitCredit
  simp only [hd, hacquire]
  rcases acquire_cases hacquire with ⟨credit, rfl, hpos, hfits, hpaid⟩ | ⟨hnone, hsame⟩
  · have hcredit : 0 < credit := by
      apply hpos
      omega
    have houtbox : (s.changeConn n fun c => ({ c with outflow }, [])).outbox = s.outbox := by
      unfold changeConn
      split <;> rfl
    exact writeTurn_sendSegment hco stage more hcredit hfits hpaid hprimed (closed_changeConn ..) houtbox
  · have hidle : Primed n id [] s (s.changeConn n fun c => ({ c with outflow }, [])) := by
      apply hprimed.congr hw
      show WriteSide.mk d.id d.writeLock outflow.state.remaining = d.writeSide
      rw [hsame]
      rfl
    rcases hnone with rfl | rfl
    · exact .sleeps stage more (hidle.setStage k _)
    · exact .fails _ stage more (hidle.finishWrite k _)

/-- A write goes on, unless it is done or the connection is closed. -/
theorem writeTurn_sendOn (hco : s.view.Coherent) (hlimit : 1 ≤ s.settings.maxSegment)
    (hw : s.writeSides[n]? = some w) (stage : c.stage = .sending m) :
    WriteTurn k n data w c s (s.sendOn k n data m).1 := by
  have hsent : c.stage.sent? = some m := by rw [stage]; rfl
  obtain ⟨d, hd, -⟩ : ∃ d, s.conns[n]? = some d ∧ d.writeSide = w := by
    simpa [writeSides] using hw
  unfold sendOn
  simp only [hd]
  split
  · rename_i hwhole
    exact .completes stage hwhole ((Primed.refl n s).finishWrite k _)
  · rename_i hmore
    have hmore : m < data.length := Nat.lt_of_not_le hmore
    split
    · exact .fails _ hsent hmore ((Primed.refl n s).finishWrite k _)
    · exact writeTurn_awaitCredit hco hlimit hw hsent hmore

/-- A write that was given up gives back what it holds. -/
theorem writeTurn_dropCall (hp : c.Placed) (hr : c.request = .write n data) (live : c.isOver = false)
    (more : ∀ m, c.stage = .sending m → m < data.length) : WriteTurn k n data w c s (s.dropCall k c) := by
  have hleave : Primed n (WriteSide.leave k) [] s (s.leaveWrite k n) := (Primed.refl n s).leaveWrite k
  unfold dropCall
  dsimp only
  split
  · rename_i hstage
    rw [Call.Placed, hstage] at hp
    rw [hr] at hp
    cases hp
  · rename_i hread
    rw [hr] at hread
    cases hread
  · rename_i hwrite
    obtain ⟨rfl, rfl⟩ := Request.write.inj (hr.symm.trans hwrite)
    have hawake : Primed n id [] s (s.changeConn n fun c =>
        ({ c with outflow := (c.outflow.leave (Fiber.call k)).1 }, (c.outflow.leave (Fiber.call k)).2)) :=
      .of_changeConn fun _ => rfl
    exact .drops _ live more (.inr rfl) ((hawake.leaveWrite k).drop k)
  · rename_i hwrite
    obtain ⟨rfl, rfl⟩ := Request.write.inj (hr.symm.trans hwrite)
    exact .drops _ live more (.inr rfl) (hleave.drop k)
  · rename_i hwrite
    obtain ⟨rfl, rfl⟩ := Request.write.inj (hr.symm.trans hwrite)
    exact .drops _ live more (.inr rfl) (hleave.drop k)
  · exact .drops _ live more (.inl rfl) ((Primed.refl n s).drop k)

theorem writeTurn (hco : s.view.Coherent) (hp : c.Placed) (hlimit : 1 ≤ s.settings.maxSegment)
    (hc : s.calls[k]? = some c) (hr : c.request = .write n data) (hw : s.writeSides[n]? = some w)
    (hmore : ∀ m, c.stage = .crediting m → m < data.length) (first : Bool) :
    WriteTurn k n data w c s (s.callTurn first k).1 := by
  unfold callTurn
  simp only [hc]
  split
  · exact .waits rfl (.refl s)
  · rename_i hlive
    have hlive : c.isOver = false := by simpa using hlive
    split
    · rename_i hgiven
      apply writeTurn_dropCall hp hr hlive
      intro m hm
      simp only [Call.isGivenUp, hm, hr, Bool.and_eq_true, decide_eq_true_eq] at hgiven
      exact hgiven.2
    · split
      · rename_i hfresh
        rw [hr]
        have hjoined : Primed n (WriteSide.join k) [] s (s.changeConn n fun c =>
            ({ c with writeLock := c.writeLock.request k }, [])) := .of_changeConn fun _ => rfl
        exact .joins hfresh (hjoined.setStage k _)
      · unfold continueCall
        split
        · rename_i hstage
          rw [Call.Placed, hstage] at hp
          rw [hr] at hp
          cases hp
        · rename_i hstage
          rw [Call.Placed, hstage] at hp
          rw [hr] at hp
          cases hp
        · rename_i hread
          rw [hr] at hread
          cases hread
        · rename_i hstage hwrite
          obtain ⟨rfl, rfl⟩ := Request.write.inj (hr.symm.trans hwrite)
          split
          · rename_i hholds
            obtain ⟨d, hd, rfl⟩ : ∃ d, s.conns[n]? = some d ∧ d.writeSide = w := by
              simpa [writeSides] using hw
            have hturn : d.writeLock.holder = some k := by simpa [holdsWriteLock, hd] using hholds
            exact .begins hstage hturn ((Primed.refl n s).setStage k _)
          · exact .waits rfl (.refl s)
        · rename_i hstage hwrite
          obtain ⟨rfl, rfl⟩ := Request.write.inj (hr.symm.trans hwrite)
          exact writeTurn_sendOn hco hlimit hw hstage
        · rename_i hstage hwrite
          obtain ⟨rfl, rfl⟩ := Request.write.inj (hr.symm.trans hwrite)
          exact writeTurn_awaitCredit hco hlimit hw (by rw [hstage]; rfl) (hmore _ hstage)
        · exact .waits rfl (.refl s)

end Session

end StreamMux
