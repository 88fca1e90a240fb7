import StreamMux.Proofs.Ending
import StreamMux.Proofs.Integrity

/-! When a reader is given the end of a stream. It has been given all that the connection took by then, and
the connection is closed, by the peer or on this side. A read that begins on a connection that is closed on
this side fails; one that was waiting when it was closed does not, and is given the end all the same. -/

namespace StreamMux

/-- Nothing is left for a reader who asks for this. A reader for no bytes is never out of them. -/
def ReceiveWindow.SpentFor (want : Want) (w : ReceiveWindow) : Prop :=
  match want with
  | .bytes 0 => False
  | .bytes (_ + 1) => bytesOf w.segments = []
  | .segment => w.segments = []

/-- A stopped window lets nobody wait, and gives the end to those for whom nothing is left. -/
theorem ReceiveWindow.serve_of_stopped {w : ReceiveWindow} (h : w.stopped = true) (want : Want) :
    ∃ w' taken, w.serve want = (w', some taken) ∧ (want.isEnd taken = true ↔ w.SpentFor want) := by
  match want with
  | .bytes 0 => exact ⟨_, _, rfl, by simp [Want.isEnd, SpentFor]⟩
  | .bytes (size + 1) =>
    show ∃ w' taken, ((w.read (size + 1)).1, (w.read (size + 1)).2.map Taken.bytes) = _ ∧ _
    rcases w.read_cases (size + 1) with ⟨hnone, hread⟩ | ⟨data, left, part, rest, hfront, hdata, hread⟩
    · rw [hread, if_pos h]
      refine ⟨_, _, rfl, ?_⟩
      have hspent : bytesOf w.segments = [] := by rw [← bytesOf_dropWhile, hnone]; rfl
      simp [Want.isEnd, SpentFor, hspent]
    · rw [hread]
      refine ⟨_, _, rfl, ?_⟩
      have hdata := hdata (Nat.succ_pos size)
      have hleft : bytesOf w.segments ≠ [] := by
        rw [← bytesOf_dropWhile, hfront, bytesOf_cons]
        simp [hdata]
      cases data with
      | nil => exact absurd rfl hdata
      | cons b data => simp [Want.isEnd, SpentFor, hleft]
  | .segment =>
    show ∃ w' taken, (w.readSegment.1, w.readSegment.2.map Taken.segment) = _ ∧ _
    unfold readSegment SpentFor
    split
    · rename_i hsegments
      exact ⟨_, _, rfl, by simp [Want.isEnd, hsegments]⟩
    · rename_i hsegments
      rw [if_pos h]
      exact ⟨_, _, rfl, by simp [Want.isEnd, hsegments]⟩

namespace Session

variable {s s' : Session} {k n : Nat} {c : Call} {want : Want}

/-! ### Whose turn changes a call -/

theorem calls_closeConn (n : Nat) (s : Session) : (s.closeConn n).calls = s.calls := by
  unfold closeConn
  split
  · rfl
  · split
    · rfl
    · dsimp only
      split
      · exact calls_changeConn ..
      · exact (calls_postOrDrop ..).trans (calls_changeConn ..)

theorem calls_dispatch (f : Frame) (s : Session) : (s.dispatch f).calls = s.calls := by
  have hroute (t : Session) : (t.route f).calls = t.calls := by
    unfold route
    split
    · rfl
    · unfold applyFrame
      have hpush (r : Session) (n : Nat) (data : Bytes) (part : Bool) :
          (r.pushSegment n data part).calls = r.calls := by
        unfold pushSegment
        split
        · rfl
        · split
          · exact calls_closeConn ..
          · exact calls_changeConn ..
      split
      · exact hpush ..
      · exact hpush ..
      · exact calls_changeConn ..
      · exact calls_changeConn ..
      · exact calls_changeConn ..
      · exact calls_changeConn ..
      · rfl
  unfold dispatch
  dsimp only
  split
  · unfold stage
    dsimp only
    split
    · rfl
    · exact calls_changeConn ..
  · exact calls_postOrDrop ..
  · rfl
  · rfl
  · rfl
  · exact hroute _

theorem calls_writerTurn (first : Bool) (s : Session) : (s.writerTurn first).1.calls = s.calls := by
  unfold writerTurn
  split
  · rfl
  · split
    · rfl
    · unfold nextFrame
      split
      · rfl
      · rfl
      · dsimp only
        split
        · rfl
        · exact calls_close _
  · split
    · rfl
    · unfold writeSome
      dsimp only
      split
      · exact calls_close _
      · split
        · split <;> rfl
        · rfl

theorem calls_readerTurn (first : Bool) (s : Session) : (s.readerTurn first).1.calls = s.calls := by
  unfold readerTurn
  split
  · rfl
  · split <;> rfl
  · split
    · rfl
    · unfold readSome
      split
      · exact calls_dispatch ..
      · exact calls_close _
      · dsimp only
        split
        · rfl
        · split
          · exact calls_close _
          · rfl
  · split
    · rfl
    · unfold handPong
      split
      · rfl
      · split <;> rfl

theorem calls_acceptorTurn (first : Bool) (s : Session) : (s.acceptorTurn first).1.calls = s.calls := by
  unfold acceptorTurn
  split
  · rfl
  · split
    · rfl
    · unfold nextStaged
      split
      · rfl
      · rfl
      · unfold decideConn
        split
        · rfl
        · split
          · rfl
          · exact (calls_postOrDrop ..).trans (calls_changeConn ..)
  · split
    · rfl
    · unfold publish
      split
      · dsimp only
        split
        · unfold confirm
          split
          · rename_i hp
            exact (calls_post hp).trans rfl
          · rfl
        · rfl
      · split <;> rfl

theorem calls_pingerTurn (s : Session) : s.pingerTurn.1.calls = s.calls := by
  unfold pingerTurn
  split
  · rfl
  · exact calls_postOrDrop ..
  · split
    · rfl
    · split
      · unfold tick
        dsimp only
        split
        · exact calls_close _
        · exact calls_postOrDrop ..
      · rfl

theorem calls_returnsTurn (first : Bool) (s : Session) : (s.returnsTurn first).1.calls = s.calls := by
  have hwake (t : Session) : t.wakeReader.calls = t.calls := by
    unfold wakeReader
    split <;> rfl
  unfold returnsTurn
  split
  · rfl
  · split
    · rfl
    · split
      · unfold handlePong measure
        split
        · exact hwake _
        · dsimp only
          split
          · exact hwake _
          · exact hwake _
      · split <;> rfl

/-- The other calls are as they were, and the call asks for the same. -/
structure Spares (k : Nat) (s t : Session) : Prop where
  others : ∀ j, j ≠ k → t.calls[j]? = s.calls[j]?
  request : (t.calls[k]?).map Call.request = (s.calls[k]?).map Call.request

namespace Spares

theorem of_calls (h : s'.calls = s.calls) : Spares k s s' := ⟨fun j _ => by rw [h], by rw [h]⟩

theorem setStage (h : s'.calls = s.calls) (stage : CallStage) : Spares k s (s'.setStage k stage) where
  others j hj := by
    show (s'.calls.modify k _)[j]? = _
    rw [List.getElem?_modify_ne _ _ (Ne.symm hj), h]
  request := by
    show ((s'.calls.modify k _)[k]?).map _ = _
    rw [List.getElem?_modify_eq, h]
    cases s.calls[k]? <;> rfl

theorem of_eq {t : Session} (h : Spares k s s') (ht : t.calls = s'.calls) : Spares k s t :=
  ⟨fun j hj => by rw [ht, h.others j hj], by rw [ht, h.request]⟩

theorem finish (h : s'.calls = s.calls) (outcome : Outcome) : Spares k s (s'.finish k outcome) :=
  (setStage h _).of_eq (calls_finish ..)

theorem requestUnder (drawn : Option (Int32 × IdSource)) (k : Nat) (s : Session) :
    Spares k s (s.requestUnder drawn k).1 := by
  unfold Session.requestUnder
  split
  · exact of_calls rfl
  · dsimp only
    split
    · exact finish (by rfl) _
    · split
      · exact finish (by rfl) _
      · rename_i hp
        have hposted := (calls_post hp).trans (show _ = s.calls from rfl)
        exact (setStage hposted _).of_eq rfl

theorem awaitAnswer (k n : Nat) (due : Moment) (s : Session) : Spares k s (s.awaitAnswer k n due).1 := by
  unfold Session.awaitAnswer
  split
  · exact finish rfl _
  · exact finish (calls_refuse ..) _
  · split
    · exact finish rfl _
    · split
      · exact finish rfl _
      · exact of_calls rfl
  · exact finish rfl _

theorem awaitConn (k : Nat) (s : Session) : Spares k s (s.awaitConn k).1 := by
  unfold Session.awaitConn
  split
  · rename_i rest _ _
    have htaken := calls_wakeAcceptor ({ s with published := rest } : Session)
    exact finish ((show (leaveAccept k _).calls = _ from htaken).trans (by rfl)) _
  · split
    · exact finish (by rfl) _
    · exact of_calls rfl

theorem awaitData (k n : Nat) (want : Want) (s : Session) : Spares k s (s.awaitData k n want).1 := by
  unfold Session.awaitData
  split
  · exact of_calls rfl
  · split
    · exact of_calls (calls_changeConn ..)
    · rename_i inflow taken _
      have hgiven : ((s.changeConn n fun c => ({ c with inflow }, [])).note
          (.handedOut n taken)).calls = s.calls := calls_changeConn ..
      exact finish ((calls_reportCredit ..).trans hgiven) _

theorem finishWrite (h : s'.calls = s.calls) (k n : Nat) (outcome : Outcome) :
    Spares k s (s'.finishWrite k n outcome) := finish ((calls_changeConn ..).trans h) _

theorem awaitCredit (k n : Nat) (data : Bytes) (written : Nat) (s : Session) :
    Spares k s (s.awaitCredit k n data written).1 := by
  unfold Session.awaitCredit
  split
  · exact of_calls rfl
  · dsimp only
    split
    · exact setStage (calls_changeConn ..) _
    · exact finishWrite (calls_changeConn ..) ..
    · unfold sendSegment
      dsimp only
      split
      · rename_i hp
        exact setStage ((calls_post hp).trans (calls_changeConn ..)) _
      · refine finishWrite ?_ ..
        exact calls_changeConn ..

theorem callTurn (first : Bool) (k : Nat) (s : Session) : Spares k s (s.callTurn first k).1 := by
  unfold Session.callTurn
  split
  · exact of_calls rfl
  · split
    · exact of_calls rfl
    · split
      · unfold dropCall
        dsimp only
        have hdrop {t : Session} (h : t.calls = s.calls) : Spares k s (t.setStage k .dropped).reap :=
          (setStage h _).of_eq (calls_reap _)
        split
        · exact hdrop rfl
        · exact hdrop (calls_changeConn ..)
        · exact hdrop ((calls_changeConn ..).trans (calls_changeConn ..))
        · exact hdrop (calls_changeConn ..)
        · exact hdrop (calls_changeConn ..)
        · exact hdrop rfl
      · split
        · unfold beginCall
          split
          · split
            · exact finish rfl _
            · exact requestUnder ..
          · split
            · exact finish rfl _
            · exact setStage (by rfl) _
          · split
            · exact of_calls rfl
            · split
              · exact finish rfl _
              · exact setStage rfl _
          · exact setStage (calls_changeConn ..) _
        · unfold continueCall
          split
          · split
            · exact finish rfl _
            · exact awaitAnswer ..
          · split
            · exact finish (by rfl) _
            · exact awaitConn ..
          · exact awaitData ..
          · split
            · exact setStage rfl _
            · exact of_calls rfl
          · unfold sendOn
            split
            · exact of_calls rfl
            · split
              · exact finishWrite rfl ..
              · split
                · exact finishWrite rfl ..
                · exact awaitCredit ..
          · exact awaitCredit ..
          · exact of_calls rfl

end Spares

theorem calls_run (fiber : Fiber) (first : Bool) (s : Session) :
    (s.run fiber first).calls = (s.takeTurn fiber first).1.calls := by
  rw [run_eq]
  split <;> rfl

theorem Spares.run (first : Bool) (k : Nat) (s : Session) : Spares k s (s.run (.call k) first) :=
  have h := Spares.callTurn first k { s with ready := s.ready.erase (.call k) }
  Spares.of_eq ⟨h.others, h.request⟩ (calls_run ..)

/-- Only its own turn changes the stage of a call, and only the user starts one. -/
theorem calls_move_cases {m : Move} (hm : s.move? m = some s') (k : Nat) :
    (∃ first, m = .run (.call k) first) ∨ s'.view.calls[k]? = s.view.calls[k]? ∨
      s.calls[k]? = none ∧ ∃ request, s'.calls[k]? = some { request } := by
  have hsame {t : Session} (h : t.calls = s.calls) : t.view.calls[k]? = s.view.calls[k]? := by
    rw [view_calls_getElem?, view_calls_getElem?, h]
  cases m with
  | ask request =>
    simp only [move?, ask] at hm
    split at hm <;> cases hm
    have hcalls : ((s.calls ++ [({ request } : Call)])[k]?) =
        if k < s.calls.length then s.calls[k]? else [({ request } : Call)][k - s.calls.length]? :=
      List.getElem?_append
    split at hcalls
    · refine .inr (.inl ?_)
      rw [view_calls_getElem?, view_calls_getElem?]
      exact congrArg _ hcalls
    · rename_i hk
      rcases hnew : k - s.calls.length with _ | j
      · rw [hnew] at hcalls
        exact .inr (.inr ⟨List.getElem?_eq_none (Nat.le_of_not_lt hk), request, hcalls⟩)
      · rw [hnew] at hcalls
        refine .inr (.inl ?_)
        rw [view_calls_getElem?, view_calls_getElem?, List.getElem?_eq_none (Nat.le_of_not_lt hk)]
        exact congrArg _ hcalls
  | cancel j =>
    cases hm
    exact .inr (.inl (by rw [view_cancel]))
  | close =>
    simp only [move?, close?] at hm
    split at hm
    · split at hm <;> cases hm
      exact .inr (.inl (hsame (calls_close s)))
    · cases hm
  | dropHandle =>
    simp only [move?] at hm
    split at hm <;> cases hm
    exact .inr (.inl (hsame (calls_reap _)))
  | closeConn n =>
    simp only [move?] at hm
    split at hm <;> cases hm
    exact .inr (.inl (hsame (calls_closeConn ..)))
  | deliver bytes => cases hm; exact .inr (.inl (by rw [view_deliver]))
  | endInput ending => cases hm; exact .inr (.inl (by rw [view_endInput]))
  | takeOutput count => cases hm; exact .inr (.inl (by rw [view_takeOutput]))
  | resizeOutput capacity => cases hm; exact .inr (.inl (by rw [view_resizeOutput]))
  | breakOutput => cases hm; exact .inr (.inl (by rw [view_breakOutput]))
  | advance span => cases hm; exact .inr (.inl rfl)
  | run fiber first =>
    simp only [move?] at hm
    split at hm <;> cases hm
    cases fiber with
    | writer => exact .inr (.inl (hsame ((calls_run ..).trans (calls_writerTurn ..))))
    | reader => exact .inr (.inl (hsame ((calls_run ..).trans (calls_readerTurn ..))))
    | acceptor => exact .inr (.inl (hsame ((calls_run ..).trans (calls_acceptorTurn ..))))
    | pinger => exact .inr (.inl (hsame ((calls_run ..).trans (calls_pingerTurn _))))
    | returns => exact .inr (.inl (hsame ((calls_run ..).trans (calls_returnsTurn ..))))
    | call j =>
      by_cases hj : j = k
      · subst hj
        exact .inl ⟨first, rfl⟩
      · refine .inr (.inl ?_)
        rw [view_calls_getElem?, view_calls_getElem?, (Spares.run first j s).others k (Ne.symm hj)]

theorem calls_move {m : Move} (hm : s.move? m = some s') (k : Nat) :
    (∃ first, m = .run (.call k) first) ∨ s'.view.calls[k]? = s.view.calls[k]? ∨
      ∃ request, s'.calls[k]? = some { request } :=
  (calls_move_cases hm k).imp_right (.imp_right And.right)

/-- A call that there is keeps its stage, but for its own turn. -/
theorem calls_kept {m : Move} (hm : s.move? m = some s') (hc : s.calls[k]? = some c) :
    (∃ first, m = .run (.call k) first) ∨ s'.view.calls[k]? = s.view.calls[k]? :=
  (calls_move_cases hm k).imp_right fun h => h.resolve_right fun hnew => by
    rw [hc] at hnew
    cases hnew.1

/-! ### The turns of a read -/

/-- What a turn of a read does to it, on the connection `d`. -/
inductive ReadTurn (k : Nat) (want : Want) (d : Conn) (c : Call) : CallStage → Prop
  | dropped (cancelled : c.cancelled = true) : ReadTurn k want d c .dropped
  /-- It begins, and the connection is closed on this side. -/
  | failed (live : c.cancelled = false) (stage : c.stage = .fresh) (closed : d.closed = true) :
      ReadTurn k want d c (.over (.failed (.connectionClosed d.id)))
  | begun (live : c.cancelled = false) (stage : c.stage = .fresh) (closed : d.closed = false) :
      ReadTurn k want d c .reading
  /-- It finds nothing, and waits. -/
  | waiting {inflow : Inflow Fiber} (live : c.cancelled = false) (stage : c.stage = .reading)
      (look : d.inflow.take (.call k) want = (inflow, none)) : ReadTurn k want d c .reading
  | served {inflow : Inflow Fiber} {taken : Taken} (live : c.cancelled = false)
      (stage : c.stage = .reading) (look : d.inflow.take (.call k) want = (inflow, some taken)) :
      ReadTurn k want d c (.over (.taken taken))

theorem callTurn_read {d : Conn} (hc : s.calls[k]? = some c) (hreq : c.request = .read n want)
    (hd : s.conns[n]? = some d) (hstage : c.stage = .fresh ∨ c.stage = .reading) (first : Bool) :
    ∃ stage, (s.callTurn first k).1.calls[k]? = some { c with stage } ∧ ReadTurn k want d c stage := by
  obtain ⟨request, stage, cancelled⟩ := c
  cases hreq
  have hset {t : Session} (h : t.calls = s.calls) (stage : CallStage) :
      (t.setStage k stage).calls[k]? = some { request := .read n want, stage, cancelled } :=
    setStage_self (by rw [h, hc]) stage
  unfold callTurn
  rw [hc]
  dsimp only at hstage ⊢
  cases cancelled with
  | true =>
    refine ⟨.dropped, ?_, .dropped rfl⟩
    rcases hstage with rfl | rfl
    · exact (congrArg (·[k]?) (calls_reap _)).trans (hset rfl _)
    · exact (congrArg (·[k]?) (calls_reap _)).trans (hset (calls_changeConn ..) _)
  | false =>
    rcases hstage with rfl | rfl
    · simp only [Call.isOver, Call.isGivenUp, Bool.false_eq_true, ↓reduceIte, beginCall, hd]
      split
      · rename_i hclosed
        refine ⟨_, ?_, .failed rfl rfl hclosed⟩
        rw [calls_finish]
        exact hset rfl _
      · rename_i hopen
        exact ⟨_, hset rfl _, .begun rfl rfl (eq_false_of_ne_true hopen)⟩
    · simp only [Call.isOver, Call.isGivenUp, Bool.false_eq_true, ↓reduceIte, reduceCtorEq, continueCall, awaitData, hd]
      rcases hlook : d.inflow.take (.call k) want with ⟨inflow, _ | taken⟩
      · refine ⟨_, ?_, .waiting rfl rfl hlook⟩
        simp only [hlook]
        rw [calls_changeConn, hc]
      · refine ⟨_, ?_, .served rfl rfl hlook⟩
        simp only [hlook]
        rw [calls_finish]
        have hgiven : ((s.changeConn n fun c => ({ c with inflow }, [])).note
            (.handedOut n taken)).calls = s.calls := calls_changeConn ..
        exact hset ((calls_reportCredit ..).trans hgiven) _

theorem run_over (hc : s.calls[k]? = some c) (hover : c.isOver = true) (first : Bool) :
    (s.run (.call k) first).calls = s.calls := by
  rw [calls_run]
  show (Session.callTurn first k _).1.calls = _
  unfold callTurn
  rw [show ({ s with ready := s.ready.erase (.call k) } : Session).calls[k]? = some c from hc]
  dsimp only
  rw [if_pos hover]

theorem run_read {d : Conn} (hc : s.calls[k]? = some c) (hreq : c.request = .read n want)
    (hd : s.conns[n]? = some d) (hstage : c.stage = .fresh ∨ c.stage = .reading) (first : Bool) :
    ∃ stage, (s.run (.call k) first).calls[k]? = some { c with stage } ∧ ReadTurn k want d c stage := by
  rw [calls_run]
  exact callTurn_read (s := { s with ready := s.ready.erase (.call k) }) hc hreq hd hstage first

/-! ### Reads in a run -/

section Run

variable {settings : Settings} {kind : LinkKind} {address : Option String} {capacity : Option Nat}
  {wall : Stamp} (hr : Reachable (start settings kind address capacity wall) s)
include hr

/-- The connection of a read. -/
theorem Reachable.conn_of_read (hc : s.calls[k]? = some c) (hreq : c.request = .read n want) :
    ∃ d, s.conns[n]? = some d :=
  ⟨_, List.getElem?_eq_getElem ((hr.tended.fits k c hc).aimed n (by rw [hreq]; rfl))⟩

/-- A read is at one of three places. -/
theorem Reachable.read_stage (hc : s.calls[k]? = some c) (hreq : c.request = .read n want) :
    c.isOver = true ∨ c.stage = .fresh ∨ c.stage = .reading := by
  induction hr generalizing c with
  | refl => simp [start] at hc
  | @move s s' m hr hm ih =>
    rcases calls_move hm k with ⟨first, rfl⟩ | hsame | ⟨request, hnew⟩
    · simp only [move?] at hm
      split at hm <;> cases hm
      have hrequest := (Spares.run first k s).request
      rw [hc] at hrequest
      obtain ⟨c₀, hc₀, heq⟩ := Option.map_eq_some_iff.1 hrequest.symm
      have hreq₀ := heq.trans hreq
      obtain ⟨d, hd⟩ := hr.conn_of_read hc₀ hreq₀
      rcases ih hc₀ hreq₀ with hover | hstage
      · rw [run_over hc₀ hover, hc₀] at hc
        cases hc
        exact .inl hover
      · obtain ⟨stage, hc', hturn⟩ := run_read hc₀ hreq₀ hd hstage first
        rw [hc] at hc'
        cases hc'
        cases hturn with
        | dropped | failed | served => exact .inl rfl
        | begun | waiting => exact .inr (.inr rfl)
    · rw [view_calls_getElem?, view_calls_getElem?, hc] at hsame
      obtain ⟨c₀, hc₀, heq⟩ := Option.map_eq_some_iff.1 hsame.symm
      obtain ⟨hr₀, hs₀⟩ := Prod.mk.inj heq
      have := ih hc₀ (hr₀.trans hreq)
      unfold Call.isOver at this ⊢
      rwa [hs₀] at this
    · rw [hnew] at hc
      cases hc
      exact .inr (.inl rfl)

/-- A read that is given the end leaves nothing of the stream. -/
theorem Reachable.dealt_out {call : Call} {taken : Taken} (hc : s.calls[k]? = some call)
    (hreq : call.request = .read n want) (hstage : call.stage = .over (.taken taken))
    (hend : want.isEnd taken = true) : Dealt (s.accepted n) (s.handedOut n) [] := by
  have hmem : (Request.read n want, CallStage.over (.taken taken)) ∈ s.view.calls := by
    refine List.mem_of_getElem? (i := k) ?_
    rw [view_calls_getElem?, hc, ← hreq, ← hstage]
    rfl
  obtain ⟨t, ht, -, hempty⟩ := hr.sound.drained n want taken hmem hend
  obtain ⟨d, hd⟩ := hr.conn_of_read hc hreq
  obtain ⟨t', ht', -, -, -, htaken, hgiven⟩ := exists_story hd
  cases ht.symm.trans ht'
  rw [← htaken, ← hgiven, ← hempty]
  exact (hr.sound.stories n t ht).dealt

/-- A reader that waits on a connection that is closed will be served. -/
theorem Reachable.ready_of_stopped {d : Conn} (hc : s.calls[k]? = some c)
    (hreq : c.request = .read n want) (hstage : c.stage = .reading) (hd : s.conns[n]? = some d)
    (hstop : d.inflow.state.stopped = true) : .call k ∈ s.ready ∧ .call k ∉ d.inflow.signal.asleep := by
  have hawake : .call k ∉ d.inflow.signal.asleep := fun h => by
    have := (hr.tended.calm n d hd).readers (List.ne_nil_of_mem h)
    rw [hstop] at this
    cases this
  refine ⟨?_, hawake⟩
  rcases (hr.tended.rests k c hc fun h => h).place with hover | hready | hparked
  · simp [Call.isOver, hstage] at hover
  · exact hready
  · simp only [Parked, hstage] at hparked
    obtain ⟨m, e, hm, he, hasleep⟩ := hparked
    rw [hreq] at hm
    cases hm
    cases hd.symm.trans he
    exact absurd hasleep hawake

/-- In every run and whatever the move, a read ends in one of two ways. One that begins when the connection
is closed on this side fails. One that began before is given what it finds, and the end only if the
connection is closed, by a frame of the peer or on this side, and all that the connection took has been
handed out. So the end comes without a word of the peer exactly to those reads that wait when the
connection is closed on this side and nothing is left: each of them is ready, and its turn never fails. -/
theorem end_given_to_readers :
    (∀ (m : Move) (s' : Session) (k n : Nat) (want : Want) (c c' : Call) (outcome : Outcome),
      s.move? m = some s' → s.calls[k]? = some c → c.request = .read n want → c.isOver = false →
      s'.calls[k]? = some c' → c'.stage = .over outcome →
      ∃ d, s.conns[n]? = some d ∧
        (c.stage = .fresh ∧ d.closed = true ∧ outcome = .failed (.connectionClosed d.id) ∨
          c.stage = .reading ∧ ∃ taken, outcome = .taken taken ∧ (want.isEnd taken = true →
            (d.closing = true ∧ (∃ frame ∈ s.heard n, frame.flag = .connClose) ∨ d.closed = true) ∧
            Dealt (s'.accepted n) (s'.handedOut n) []))) ∧
    ∀ (k n : Nat) (want : Want) (c : Call) (d : Conn), s.calls[k]? = some c →
      c.request = .read n want → c.stage = .reading → c.cancelled = false → s.conns[n]? = some d →
      d.closed = true ∨ d.closing = true →
      .call k ∈ s.ready ∧ ∀ first, ∃ taken,
        (s.run (.call k) first).calls[k]? = some { c with stage := .over (.taken taken) } ∧
        (want.isEnd taken = true ↔ d.inflow.state.SpentFor want) := by
  refine ⟨fun m s' k n want c c' outcome hm hc hreq hlive hc' hover => ?_,
    fun k n want c d hc hreq hstage hcancelled hd hclosed => ?_⟩
  · obtain ⟨d, hd⟩ := hr.conn_of_read hc hreq
    refine ⟨d, hd, ?_⟩
    rcases calls_move hm k with ⟨first, rfl⟩ | hsame | ⟨request, hnew⟩
    · have hr' := hr.move _ hm
      simp only [move?] at hm
      split at hm <;> cases hm
      have hstage := (hr.read_stage hc hreq).resolve_left (by rw [hlive]; exact Bool.false_ne_true)
      obtain ⟨stage, hrun, hturn⟩ := run_read hc hreq hd hstage first
      rw [hc'] at hrun
      cases hrun
      cases hover
      cases hturn with
      | failed _ hfresh hclosed => exact .inl ⟨hfresh, hclosed, rfl⟩
      | @served inflow taken _ hreading hlook =>
        refine .inr ⟨hreading, taken, rfl, fun hend => ⟨?_, hr'.dealt_out hc' hreq rfl hend⟩⟩
        have hstop := ((ReceiveWindow.serve_spec (Monitor.look_of_poll hlook)).2.2 taken rfl hend).1
        rw [(windows_of_sound hr.sound hd).1, Bool.or_eq_true] at hstop
        rcases hstop with hclosed | hclosing
        · exact .inr hclosed
        · obtain ⟨t, ht, hface, -, hheard, -⟩ := exists_story hd
          refine .inl ⟨hclosing, ?_⟩
          rw [← hheard]
          exact (hr.sound.stories n t ht).closing (by rw [hface]; exact hclosing)
    · -- The call had ended before.
      rw [view_calls_getElem?, view_calls_getElem?, hc, hc'] at hsame
      have hstage := (Prod.mk.inj (Option.some.inj hsame)).2
      rw [Call.isOver, ← hstage, hover] at hlive
      cases hlive
    · rw [hc'] at hnew
      cases hnew
      cases hover
  · have hstop : d.inflow.state.stopped = true := by
      rw [(windows_of_sound hr.sound hd).1, Bool.or_eq_true]
      exact hclosed
    obtain ⟨hready, hawake⟩ := hr.ready_of_stopped hc hreq hstage hd hstop
    refine ⟨hready, fun first => ?_⟩
    obtain ⟨w, taken, hserve, hend⟩ := ReceiveWindow.serve_of_stopped hstop want
    obtain ⟨stage, hrun, hturn⟩ := run_read hc hreq hd (.inr hstage) first
    have hlook : ∃ inflow, d.inflow.take (.call k) want = (inflow, some taken) := by
      unfold Inflow.take Monitor.poll
      rw [if_neg hawake, hserve]
      exact ⟨_, rfl⟩
    obtain ⟨inflow, hlook⟩ := hlook
    cases hturn with
    | dropped h => rw [hcancelled] at h; cases h
    | failed _ h => rw [hstage] at h; cases h
    | begun _ h => rw [hstage] at h; cases h
    | waiting _ _ h => rw [hlook] at h; cases h
    | served _ _ h =>
      rw [hlook] at h
      cases h
      exact ⟨taken, hrun, hend⟩

end Run

/-- The user opens a connection, reads from it, and closes it while the read waits. -/
def closedReading : List Move :=
  [.ask .openConn, .run (.call 0) true, .run (.call 0) true, .deliver [1, 1, 0, 0, 0],
    .run .reader true, .run .reader true, .run (.call 0) true, .ask (.read 0 (.bytes 4)),
    .run (.call 1) true, .run (.call 1) true, .closeConn 0]

/-- The read is given the end, and the peer has not closed the connection. -/
theorem closed_reader_given_end :
    ∃ s d, Reachable (start (.build []) .tcp none none 0) s ∧ s.conns[0]? = some d ∧
      d.closing = false ∧ (s.heard 0).map Frame.flag = [.newConnOk] ∧
      ∃ s', s.move? (.run (.call 1) true) = some s' ∧
        s'.calls[1]? = some { request := .read 0 (.bytes 4), stage := .over (.taken (.bytes [])) } := by
  have hplay : ((start (.build []) .tcp none none 0).playCalm closedReading).map
      (fun s => (s.calls[1]?,
        s.conns.map fun d => d.closed && !d.closing && d.inflow.state.segments.isEmpty,
        (s.heard 0).map Frame.flag)) =
        some (some { request := .read 0 (.bytes 4), stage := .reading }, [true], [.newConnOk]) := by
    decide +kernel
  obtain ⟨s, hs, hend⟩ := Option.map_eq_some_iff.1 hplay
  rw [Prod.mk.injEq, Prod.mk.injEq] at hend
  obtain ⟨hcall, hconns, hheard⟩ := hend
  obtain ⟨d, hd, hface⟩ : ∃ d, s.conns[0]? = some d ∧
      (d.closed && !d.closing && d.inflow.state.segments.isEmpty) = true := by
    have hfirst := congrArg (·[0]?) hconns
    simp only [List.getElem?_map, List.getElem?_cons_zero] at hfirst
    exact Option.map_eq_some_iff.1 hfirst
  simp only [Bool.and_eq_true, Bool.not_eq_true', List.isEmpty_iff] at hface
  obtain ⟨⟨hclosed, hclosing⟩, hempty⟩ := hface
  have hreach := (undisturbed_of_playCalm .refl hs).reachable
  obtain ⟨hready, hturn⟩ :=
    (end_given_to_readers hreach).2 1 0 (.bytes 4) _ d hcall rfl rfl rfl hd (.inl hclosed)
  obtain ⟨taken, hrun, htold⟩ := hturn true
  have htaken : taken = .bytes [] := by
    have hspent : d.inflow.state.SpentFor (.bytes 4) := by
      show bytesOf _ = []
      rw [hempty]
      rfl
    have hisEnd := htold.2 hspent
    match taken with
    | .bytes [] => rfl
    | .bytes (_ :: _) | .segment _ => cases hisEnd
  rw [htaken] at hrun
  exact ⟨s, d, hreach, hd, hclosing, hheard, _, if_pos hready, hrun⟩

end Session

end StreamMux
