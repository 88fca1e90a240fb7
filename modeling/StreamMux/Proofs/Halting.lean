import StreamMux.Proofs.Closing

/-! Why a session ends. Its user ends it, its last handle is gone, its peer is silent, or the link is lost;
else it ends over a frame, one that cannot be written or bytes that are none. -/

namespace StreamMux

namespace Session

variable {s t u : Session} {m : Move}

/-! ### Calls -/

/-- From `s` to `t` the handle stays, and with it the session goes on. -/
structure GoesOn (s t : Session) : Prop where
  handle : t.handle = s.handle
  closed : s.handle = true → t.closed = s.closed

namespace GoesOn

theorem refl (s : Session) : s.GoesOn s := ⟨rfl, fun _ => rfl⟩

theorem trans (h : s.GoesOn t) (h' : t.GoesOn u) : s.GoesOn u :=
  ⟨h'.handle.trans h.handle, fun hs => (h'.closed (h.handle.trans hs)).trans (h.closed hs)⟩

/-- A change apart from the handle and the end of the session. -/
theorem of_eq (h : s.GoesOn t) (hh : u.handle = t.handle) (hc : u.closed = t.closed) : s.GoesOn u :=
  h.trans ⟨hh, fun _ => hc⟩

theorem changeConn (h : s.GoesOn t) (n : Nat) (change : Conn → Conn × List Fiber) :
    s.GoesOn (t.changeConn n change) := by
  refine h.of_eq ?_ (closed_changeConn ..)
  unfold Session.changeConn
  split <;> rfl

theorem post (h : s.GoesOn t) {out : Outgoing} (hp : t.post out = some u) : s.GoesOn u := by
  refine h.of_eq ?_ (closed_post hp)
  unfold Session.post at hp
  split at hp
  · cases hp
  · obtain ⟨⟨outbox, woken⟩, -, rfl⟩ := Option.map_eq_some_iff.1 hp
    rfl

theorem postOrDrop (h : s.GoesOn t) (out : Outgoing) : s.GoesOn (t.postOrDrop out) := by
  unfold Session.postOrDrop
  cases hp : t.post out with
  | none => exact h
  | some u => exact h.post hp

theorem reportCredit (h : s.GoesOn t) (n : Nat) : s.GoesOn (t.reportCredit n) := by
  unfold Session.reportCredit
  split
  · exact h
  · split
    · exact h
    · split
      · exact h
      · exact (h.changeConn n _).postOrDrop _

theorem shutConn (h : s.GoesOn t) (n : Nat) : s.GoesOn (t.shutConn n) := h.changeConn n _

theorem refuse (h : s.GoesOn t) (n : Nat) : s.GoesOn (t.refuse n) := by
  unfold Session.refuse
  split
  · exact h
  · refine shutConn ?_ n
    exact h.of_eq rfl rfl

theorem foldl_shutConn (h : s.GoesOn t) (conns : List Nat) :
    s.GoesOn (conns.foldl (fun s n => s.shutConn n) t) := by
  induction conns generalizing t with
  | nil => exact h
  | cons n conns ih => exact ih (h.shutConn n)

/-- A session whose handle is gone ends with its last call. -/
theorem reap (h : s.GoesOn t) : s.GoesOn t.reap := by
  have hshut (conns : List Nat) (u : Session) : (conns.foldl (fun s n => s.shutConn n) u).handle = u.handle :=
    ((refl u).foldl_shutConn conns).handle
  have hstaged (u : Session) : u.stopStaged.handle = u.handle := hshut ..
  have houtbox (u : Session) : u.stopOutbox.handle = u.handle := rfl
  have hwake (fibers : List Fiber) (u : Session) : (u.wake fibers).handle = u.handle := rfl
  have hclose : t.close.handle = t.handle := by
    unfold Session.close
    split
    · rfl
    · dsimp only
      rw [hstaged, houtbox, hwake, hshut]
      rfl
  unfold Session.reap
  split
  · exact h
  · rename_i hgone
    refine ⟨hclose.trans h.handle, fun hs => ?_⟩
    rw [h.handle, hs] at hgone
    exact absurd (.inl rfl) hgone

theorem finish (h : s.GoesOn t) (k : Nat) (outcome : Outcome) : s.GoesOn (t.finish k outcome) :=
  reap (t := (t.setStage k (.over outcome)).note (.finished k outcome)) (h.of_eq rfl rfl)

theorem leaveAccept (h : s.GoesOn t) (k : Nat) : s.GoesOn (t.leaveAccept k) := h.of_eq rfl rfl

theorem finishWrite (h : s.GoesOn t) (k n : Nat) (outcome : Outcome) : s.GoesOn (t.finishWrite k n outcome) :=
  (h.changeConn n _).finish k outcome

theorem requestUnder (drawn : Option (Int32 × IdSource)) (k : Nat) (s : Session) :
    s.GoesOn (s.requestUnder drawn k).1 := by
  unfold Session.requestUnder
  split
  · exact .refl s
  · rename_i id ids
    have hconn : s.GoesOn (({ s with ids } : Session).addConn id (.awaited k)).1 := ⟨rfl, fun _ => rfl⟩
    dsimp only
    split
    · exact hconn.finish ..
    · split
      · exact (hconn.of_eq rfl rfl).finish ..
      · rename_i hp
        refine of_eq (post ?_ hp) rfl rfl
        exact hconn.of_eq rfl rfl

theorem awaitAnswer (k n : Nat) (due : Moment) (s : Session) : s.GoesOn (s.awaitAnswer k n due).1 := by
  unfold Session.awaitAnswer
  split
  · exact (refl s).finish ..
  · exact ((refl s).refuse n).finish ..
  · split
    · exact (refl s).finish ..
    · split
      · exact (refl s).finish ..
      · exact .refl s
  · exact (refl s).finish ..

theorem awaitConn (k : Nat) (s : Session) : s.GoesOn (s.awaitConn k).1 := by
  have hwake (t : Session) : t.GoesOn t.wakeAcceptor := by
    unfold wakeAcceptor
    split <;> exact ⟨rfl, fun _ => rfl⟩
  unfold Session.awaitConn
  split
  · rename_i rest _ _
    have hrest : s.GoesOn { s with published := rest } := ⟨rfl, fun _ => rfl⟩
    exact ((hrest.trans (hwake _)).leaveAccept k).finish ..
  · split
    · exact ((refl s).leaveAccept k).finish ..
    · exact .refl s

theorem awaitData (k n : Nat) (want : Want) (s : Session) : s.GoesOn (s.awaitData k n want).1 := by
  unfold Session.awaitData
  split
  · exact .refl s
  · split
    · rename_i inflow _
      exact (refl s).changeConn n fun c => ({ c with inflow }, [])
    · rename_i inflow taken _
      have hnote : s.GoesOn ((s.changeConn n fun c => ({ c with inflow }, [])).note (.handedOut n taken)) :=
        ((refl s).changeConn n _).of_eq rfl rfl
      exact (hnote.reportCredit n).finish ..

theorem awaitCredit (k n : Nat) (data : Bytes) (written : Nat) (s : Session) :
    s.GoesOn (s.awaitCredit k n data written).1 := by
  unfold Session.awaitCredit
  split
  · exact .refl s
  · have hspend (outflow : Outflow Fiber) : s.GoesOn (s.changeConn n fun c => ({ c with outflow }, [])) :=
      (refl s).changeConn n _
    dsimp only
    split
    · exact (hspend _).of_eq rfl rfl
    · exact (hspend _).finishWrite ..
    · unfold sendSegment
      dsimp only
      split
      · rename_i hp
        refine of_eq (post ?_ hp) rfl rfl
        exact (hspend _).of_eq rfl rfl
      · refine finishWrite ?_ ..
        exact (hspend _).of_eq rfl rfl

theorem sendOn (k n : Nat) (data : Bytes) (written : Nat) (s : Session) :
    s.GoesOn (s.sendOn k n data written).1 := by
  unfold Session.sendOn
  split
  · exact .refl s
  · split
    · exact (refl s).finishWrite ..
    · split
      · exact (refl s).finishWrite ..
      · exact awaitCredit ..

theorem beginCall (k : Nat) (request : Request) (s : Session) : s.GoesOn (s.beginCall k request).1 := by
  unfold Session.beginCall
  split
  · split
    · exact (refl s).finish ..
    · exact requestUnder ..
  · split
    · exact (refl s).finish ..
    · exact ⟨rfl, fun _ => rfl⟩
  · split
    · exact .refl s
    · split
      · exact (refl s).finish ..
      · exact ⟨rfl, fun _ => rfl⟩
  · exact ((refl s).changeConn _ _).of_eq rfl rfl

theorem continueCall (first : Bool) (k : Nat) (c : Call) (s : Session) :
    s.GoesOn (s.continueCall first k c).1 := by
  unfold Session.continueCall
  split
  · split
    · exact (refl s).finish ..
    · exact awaitAnswer ..
  · split
    · exact ((refl s).leaveAccept k).finish ..
    · exact awaitConn ..
  · exact awaitData ..
  · split <;> exact ⟨rfl, fun _ => rfl⟩
  · exact sendOn ..
  · exact awaitCredit ..
  · exact .refl s

theorem dropCall (k : Nat) (c : Call) (s : Session) : s.GoesOn (s.dropCall k c) := by
  have hdrop {t : Session} (h : s.GoesOn t) : s.GoesOn (t.setStage k .dropped).reap :=
    reap (t := t.setStage k .dropped) (h.of_eq rfl rfl)
  unfold Session.dropCall
  dsimp only
  split
  · exact hdrop ((refl s).leaveAccept k)
  · exact hdrop ((refl s).changeConn _ _)
  · exact hdrop (((refl s).changeConn _ _).changeConn _ _)
  · exact hdrop ((refl s).changeConn _ _)
  · exact hdrop ((refl s).changeConn _ _)
  · exact hdrop (refl s)

theorem callTurn (first : Bool) (k : Nat) (s : Session) : s.GoesOn (s.callTurn first k).1 := by
  unfold Session.callTurn
  split
  · exact .refl s
  · split
    · exact .refl s
    · split
      · exact dropCall ..
      · split
        · exact beginCall ..
        · exact continueCall ..

end GoesOn

/-! ### The loops -/

/-- The frame that is next in the queue cannot be written. -/
def Balks (s : Session) : Prop := ∃ lanes out cause,
  s.outbox.state.take = (lanes, some out) ∧ out.frame.encode s.settings.maxSegment = .error cause

/-- The bytes that the reader takes next are no frame. -/
def Misreads (s : Session) : Prop := ∃ d cause rest,
  s.reader = .reading d ∧ d.run s.settings.maxSegment s.inlet.bytes = .error cause rest

/-- An open session that ends does not stay as it was. -/
theorem false_of_stays (hopen : s.closed = false) (ht : t.closed = true) (hc : t.closed = s.closed) : False := by
  rw [hc, hopen] at ht
  cases ht

theorem writerTurn_halts (hopen : s.closed = false) {first : Bool} (ht : (s.writerTurn first).1.closed = true) :
    s.outlet.broken = true ∨ s.Balks := by
  unfold writerTurn at ht
  split at ht
  · exact (false_of_stays hopen ht rfl).elim
  · rw [if_neg (by simp [hopen])] at ht
    unfold nextFrame at ht
    split at ht
    · exact (false_of_stays hopen ht rfl).elim
    · exact (false_of_stays hopen ht rfl).elim
    · rename_i hp
      dsimp only at ht
      split at ht
      · exact (false_of_stays hopen ht rfl).elim
      · rename_i cause hfails
        exact .inr ⟨_, _, cause, (Queue.take_of_pop hp).2, hfails⟩
  · rw [if_neg (by simp [hopen])] at ht
    dsimp only [writeSome] at ht
    split at ht
    · rename_i hbroken
      exact .inl hbroken
    · split at ht
      · rw [if_neg (by simp [hopen])] at ht
        exact (false_of_stays hopen ht rfl).elim
      · exact (false_of_stays hopen ht rfl).elim

theorem readerTurn_halts (hopen : s.closed = false) {first : Bool} (ht : (s.readerTurn first).1.closed = true) :
    s.inlet.ending.isSome = true ∨ s.Misreads := by
  unfold readerTurn at ht
  split at ht
  · exact (false_of_stays hopen ht rfl).elim
  · rw [if_neg (by simp [hopen])] at ht
    exact (false_of_stays hopen ht rfl).elim
  · rename_i d hr
    rw [if_neg (by simp [hopen])] at ht
    unfold readSome at ht
    split at ht
    · exact (false_of_stays hopen ht (closed_dispatch ..)).elim
    · rename_i cause rest hd
      exact .inr ⟨d, cause, rest, hr, hd⟩
    · dsimp only at ht
      rw [if_neg (by simp [hopen])] at ht
      split at ht
      · rename_i hending
        exact .inl hending
      · exact (false_of_stays hopen ht rfl).elim
  · rw [if_neg (by simp [hopen])] at ht
    unfold handPong at ht
    split at ht
    · exact (false_of_stays hopen ht rfl).elim
    · rw [if_neg (by simp [hopen])] at ht
      exact (false_of_stays hopen ht rfl).elim

theorem pingerTurn_halts (hopen : s.closed = false) (ht : s.pingerTurn.1.closed = true) :
    s.countTick.isDead = true := by
  have hping (t : Session) (due : Moment) : (t.sendPing.awaitTick due).closed = t.closed :=
    closed_postOrDrop ..
  unfold pingerTurn at ht
  split at ht
  · exact (false_of_stays hopen ht rfl).elim
  · exact (false_of_stays hopen ht (hping ..)).elim
  · rw [if_neg (by simp [hopen])] at ht
    split at ht
    · unfold tick at ht
      dsimp only at ht
      split at ht
      · assumption
      · exact (false_of_stays hopen ht (hping ..)).elim
    · exact (false_of_stays hopen ht rfl).elim

/-! ### Moves -/

/-- Why a move ends a session, if it is not over a frame. -/
inductive Halt (s : Session) : Move → Prop
  | close : Halt s .close
  | dropHandle : Halt s .dropHandle
  /-- The handle was dropped before, and a call was the last. -/
  | call (k : Nat) (first : Bool) (gone : s.handle = false) : Halt s (.run (.call k) first)
  /-- Too many pings were missed, or the peer was silent for too long. -/
  | silence (first : Bool) (dead : s.countTick.isDead = true) : Halt s (.run .pinger first)
  | broken (first : Bool) (broken : s.outlet.broken = true) : Halt s (.run .writer first)
  | ended (first : Bool) (ending : s.inlet.ending.isSome = true) : Halt s (.run .reader first)

/-- The move ends a session over a frame, one that goes out or one that comes in. -/
inductive Fault (s : Session) : Move → Prop
  | outgoing (first : Bool) (h : s.Balks) : Fault s (.run .writer first)
  | incoming (first : Bool) (h : s.Misreads) : Fault s (.run .reader first)

theorem halt_or_fault (hm : s.move? m = some t) (hopen : s.closed = false) (ht : t.closed = true) :
    s.Halt m ∨ s.Fault m := by
  have hstay (hc : t.closed = s.closed) : s.Halt m ∨ s.Fault m := (false_of_stays hopen ht hc).elim
  cases m with
  | close => exact .inl .close
  | dropHandle => exact .inl .dropHandle
  | ask request =>
    simp only [move?, ask] at hm
    split at hm <;> cases hm
    exact hstay rfl
  | cancel k =>
    cases hm
    refine hstay ?_
    unfold cancel
    split
    · rfl
    · split <;> rfl
  | closeConn n =>
    simp only [move?] at hm
    split at hm <;> cases hm
    exact hstay (closed_closeConn ..)
  | deliver bytes => cases hm; exact hstay (congrArg View.closed (view_deliver bytes s))
  | endInput ending => cases hm; exact hstay (congrArg View.closed (view_endInput ending s))
  | takeOutput count => cases hm; exact hstay (congrArg View.closed (view_takeOutput count s))
  | resizeOutput capacity => cases hm; exact hstay (congrArg View.closed (view_resizeOutput capacity s))
  | breakOutput => cases hm; exact hstay (congrArg View.closed (view_breakOutput s))
  | advance span => cases hm; exact hstay rfl
  | run fiber first =>
    simp only [move?] at hm
    split at hm <;> cases hm
    have hturn : (s.takeTurn fiber first).1.closed = true := by
      rw [← ht, run]
      split <;> rename_i he
      · rw [he, goOn]
      · rw [he]
    have hrest (hc : (s.takeTurn fiber first).1.closed = s.closed) :
        s.Halt (.run fiber first) ∨ s.Fault (.run fiber first) := (false_of_stays hopen hturn hc).elim
    let s₀ : Session := { s with ready := s.ready.erase fiber }
    have hopen₀ : s₀.closed = false := hopen
    cases fiber with
    | writer => exact (writerTurn_halts hopen₀ hturn).imp (.broken first) (.outgoing first)
    | reader => exact (readerTurn_halts hopen₀ hturn).imp (.ended first) (.incoming first)
    | acceptor => exact hrest (closed_acceptorTurn ..)
    | pinger => exact .inl (.silence first (pingerTurn_halts (s := s₀) hopen₀ hturn))
    | returns => exact hrest (closed_returnsTurn ..)
    | call k =>
      have hgoes := GoesOn.callTurn first k s₀
      refine .inl (.call k first (eq_false_of_ne_true fun hh => ?_))
      exact false_of_stays hopen₀ hturn (hgoes.closed hh)

end Session

end StreamMux
