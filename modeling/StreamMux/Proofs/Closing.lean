import StreamMux.Proofs.Tending

/-! What ends a session. A turn or a move that ends it closes every connection that was registered or
staged; only the turn of an open that gives up a refused connection changes the registry before. -/

namespace StreamMux

namespace Session

/-- The same connections are registered, staged and open. -/
structure Alike (s t : Session) : Prop where
  registry : t.registry = s.registry
  staged : t.staged = s.staged
  marks : t.view.marks = s.view.marks

/-- From `s` on the session goes on, or it has ended in a state that held what `held` holds. -/
def EndsFrom (held s s' : Session) : Prop :=
  s'.closed = s.closed ∨ ∃ t : Session, held.Alike t ∧ t.closed = false ∧ s'.conns = t.close.conns

variable {s s' t held : Session}

/-! ### The same connections -/

namespace Alike

theorem of_eq (hr : t.registry = s.registry) (hs : t.staged = s.staged) (hc : t.conns = s.conns) :
    s.Alike t :=
  ⟨hr, hs, by unfold View.marks view; rw [hc]⟩

theorem refl (s : Session) : s.Alike s := of_eq rfl rfl rfl

theorem trans {r : Session} (h : r.Alike s) (h' : s.Alike t) : r.Alike t :=
  ⟨h'.registry.trans h.registry, h'.staged.trans h.staged, h'.marks.trans h.marks⟩

theorem changeConn (n : Nat) {change : Conn → Conn × List Fiber}
    (hid : ∀ c, (change c).1.id = c.id) (hclosed : ∀ c, (change c).1.closed = c.closed) (s : Session) :
    s.Alike (s.changeConn n change) := by
  have hmarks : (s.changeConn n change).view.marks = s.view.marks := by
    rcases hc : s.conns[n]? with _ | c
    · unfold Session.changeConn
      rw [hc]
    · rw [view_changeConn hc]
      refine View.marks_setFace_same (f := c.face) ?_ (hid c) (hclosed c)
      rw [view_faces_getElem?, hc]
      rfl
  refine ⟨?_, ?_, hmarks⟩ <;> unfold Session.changeConn <;> split <;> rfl

theorem post {out : Outgoing} (h : s.post out = some t) : s.Alike t := by
  unfold Session.post at h
  split at h
  · cases h
  · obtain ⟨⟨outbox, woken⟩, -, rfl⟩ := Option.map_eq_some_iff.1 h
    exact .of_eq rfl rfl rfl

theorem postOrDrop (out : Outgoing) (s : Session) : s.Alike (s.postOrDrop out) := by
  unfold Session.postOrDrop
  cases hp : s.post out with
  | none => exact .refl s
  | some t => exact post hp

theorem reportCredit (n : Nat) (s : Session) : s.Alike (s.reportCredit n) := by
  unfold Session.reportCredit
  split
  · exact .refl s
  · split
    · exact .refl s
    · split
      · exact .refl s
      · exact (changeConn n (fun _ => rfl) (fun _ => rfl) s).trans (postOrDrop _ _)

end Alike

/-! ### What goes on -/

theorem closed_post {out : Outgoing} (h : s.post out = some t) : t.closed = s.closed := by
  unfold post at h
  split at h
  · cases h
  · obtain ⟨⟨outbox, woken⟩, -, rfl⟩ := Option.map_eq_some_iff.1 h
    rfl

@[simp] theorem closed_postOrDrop (out : Outgoing) (s : Session) :
    (s.postOrDrop out).closed = s.closed := by
  unfold postOrDrop
  cases hp : s.post out with
  | none => rfl
  | some t => exact closed_post hp

@[simp] theorem closed_reportCredit (n : Nat) (s : Session) : (s.reportCredit n).closed = s.closed := by
  unfold reportCredit
  split
  · rfl
  · split
    · rfl
    · split
      · rfl
      · rw [closed_postOrDrop, closed_changeConn]

@[simp] theorem closed_shutConn (n : Nat) (s : Session) : (s.shutConn n).closed = s.closed :=
  closed_changeConn ..

@[simp] theorem closed_closeConn (n : Nat) (s : Session) : (s.closeConn n).closed = s.closed := by
  unfold closeConn
  split
  · rfl
  · split
    · rfl
    · dsimp only
      split
      · exact closed_changeConn ..
      · exact (closed_postOrDrop ..).trans (closed_changeConn ..)

theorem closed_dispatch (f : Frame) (s : Session) : (s.dispatch f).closed = s.closed := by
  have hroute (t : Session) : (t.route f).closed = t.closed := by
    unfold route
    split
    · rfl
    · unfold applyFrame
      have hpush (r : Session) (n : Nat) (data : Bytes) (part : Bool) :
          (r.pushSegment n data part).closed = r.closed := by
        unfold pushSegment
        split
        · rfl
        · split
          · exact closed_closeConn ..
          · exact closed_changeConn ..
      split
      · exact hpush ..
      · exact hpush ..
      · exact closed_changeConn ..
      · exact closed_changeConn ..
      · exact closed_changeConn ..
      · exact closed_changeConn ..
      · rfl
  have hstage (t : Session) (id : Int32) : (t.stage id).closed = t.closed := by
    unfold stage
    dsimp only
    split
    · rfl
    · exact closed_shutConn ..
  unfold dispatch
  dsimp only
  split
  · exact hstage ..
  · exact closed_postOrDrop ..
  · rfl
  · rfl
  · rfl
  · exact hroute _

/-! ### What ends -/

theorem endsFrom_close (hs' : s'.conns = t.close.conns) (hclosed : s'.closed = t.close.closed)
    (h : held.Alike t) (hc : t.closed = s.closed) : EndsFrom held s s' := by
  cases ht : t.closed with
  | true =>
    refine .inl (hclosed.trans ?_)
    rw [close, if_pos ht, hc]
  | false => exact .inr ⟨t, h, ht, hs'⟩

theorem endsFrom_reap (h : held.Alike t) (hc : t.closed = s.closed) : EndsFrom held s t.reap := by
  unfold reap
  split
  · exact .inl hc
  · exact endsFrom_close rfl rfl h hc

theorem endsFrom_finish (h : held.Alike t) (hc : t.closed = s.closed) (k : Nat) (outcome : Outcome) :
    EndsFrom held s (t.finish k outcome) :=
  endsFrom_reap (t := (t.setStage k (.over outcome)).note (.finished k outcome))
    ⟨h.registry, h.staged, h.marks⟩ hc

theorem endsFrom_writerTurn (first : Bool) (s : Session) : EndsFrom s s (s.writerTurn first).1 := by
  have hsame {t : Session} (h : t.closed = s.closed) : EndsFrom s s t := .inl h
  unfold writerTurn
  split
  · exact hsame rfl
  · split
    · exact hsame rfl
    · unfold nextFrame
      split
      · exact hsame rfl
      · exact hsame rfl
      · dsimp only
        split
        · exact hsame rfl
        · exact endsFrom_close rfl rfl (.of_eq rfl rfl rfl) rfl
  · split
    · exact hsame rfl
    · unfold writeSome
      dsimp only
      split
      · exact endsFrom_close rfl rfl (.refl s) rfl
      · split
        · split <;> exact hsame rfl
        · exact hsame rfl

theorem endsFrom_readerTurn (first : Bool) (s : Session) : EndsFrom s s (s.readerTurn first).1 := by
  have hsame {t : Session} (h : t.closed = s.closed) : EndsFrom s s t := .inl h
  unfold readerTurn
  split
  · exact hsame rfl
  · split <;> exact hsame rfl
  · split
    · exact hsame rfl
    · unfold readSome
      split
      · exact hsame (closed_dispatch ..)
      · exact endsFrom_close rfl rfl (.of_eq rfl rfl rfl) rfl
      · dsimp only
        split
        · exact hsame rfl
        · split
          · exact endsFrom_close rfl rfl (.of_eq rfl rfl rfl) rfl
          · exact hsame rfl
  · split
    · exact hsame rfl
    · unfold handPong
      split
      · exact hsame rfl
      · split <;> exact hsame rfl

theorem closed_acceptorTurn (first : Bool) (s : Session) : (s.acceptorTurn first).1.closed = s.closed := by
  unfold acceptorTurn
  split
  · rfl
  · split
    · rfl
    · unfold nextStaged
      split
      · rfl
      · rfl
      · unfold decideConn
        split
        · rfl
        · split
          · rfl
          · exact (closed_postOrDrop ..).trans (closed_shutConn ..)
  · split
    · rfl
    · unfold publish
      split
      · dsimp only
        split
        · unfold confirm
          split
          · rename_i hp
            exact (closed_post hp).trans rfl
          · rfl
        · rfl
      · split <;> rfl

theorem endsFrom_pingerTurn (s : Session) : EndsFrom s s s.pingerTurn.1 := by
  have hping (t : Session) (due : Moment) : (t.sendPing.awaitTick due).closed = t.closed :=
    closed_postOrDrop ..
  unfold pingerTurn
  split
  · exact .inl rfl
  · exact .inl (hping ..)
  · split
    · exact .inl rfl
    · split
      · unfold tick
        dsimp only
        split
        · exact endsFrom_close rfl rfl (.of_eq rfl rfl rfl) rfl
        · exact .inl (hping ..)
      · exact .inl rfl

theorem closed_returnsTurn (first : Bool) (s : Session) : (s.returnsTurn first).1.closed = s.closed :=
  congrArg View.closed (view_returnsTurn first s)

/-! ### Calls -/

/-- An open that asks the peer does not end the session. -/
theorem closed_request (h : s.view.Coherent) (hopen : s.closed = false) (k : Nat) :
    (s.request k).1.closed = s.closed := by
  have hreg : s.registry.closed = false := h.registry.trans hopen
  have hpost {t : Session} {out : Outgoing} (hp : t.post out = none) (ho : t.outbox = s.outbox)
      (hc : t.closed = s.closed) : False := by
    have hpush : t.outbox.push (if out.frame.flag.isPriority then .priority else .normal) out = none := by
      unfold post at hp
      rw [if_neg (by rw [hc, hopen]; exact Bool.false_ne_true)] at hp
      exact Option.map_eq_none_iff.1 hp
    obtain ⟨lanes, hl, -⟩ := h.push hopen (if out.frame.flag.isPriority then .priority else .normal) out
    have hl' : s.outbox.state.push (if out.frame.flag.isPriority then .priority else .normal) out =
      some lanes := hl
    rw [ho, Queue.push, hl'] at hpush
    cases hpush
  unfold request
  cases hdraw : s.ids.draw s.registry.contains with
  | none => rfl
  | some drawn =>
    obtain ⟨id, ids⟩ := drawn
    have hfree := (IdSource.pos_and_free_of_draw hdraw).2
    unfold requestUnder
    dsimp only
    split
    · rename_i hins
      unfold Registry.contains Registry.get? at hfree
      rw [hreg] at hfree
      unfold Registry.insertNew at hins
      have hins' : ¬ (s.registry.closed = true ∨ (s.registry.lookup id).isSome = true) := by
        rw [hreg]
        simpa using hfree
      exact absurd ((if_neg hins').symm.trans hins) (by simp)
    · split
      · rename_i hp
        exact (hpost hp rfl rfl).elim
      · rename_i hp
        exact (closed_post hp).trans rfl

theorem Alike.leaveWrite (k n : Nat) (s : Session) : s.Alike (s.leaveWrite k n) :=
  changeConn n (fun _ => rfl) (fun _ => rfl) s

/-- What is given up does not depend on who is ready. -/
theorem Alike.refuse (r : Nat) (ready : List Fiber) (s : Session) :
    (s.refuse r).Alike (({ s with ready } : Session).refuse r) := by
  unfold Session.refuse shutConn Session.changeConn
  rcases hr : s.conns[r]? with _ | c
  · exact .of_eq rfl rfl rfl
  · dsimp only
    rw [hr]
    exact .of_eq rfl rfl rfl

theorem endsFrom_finishWrite (h : s.Alike t) (hc : t.closed = s.closed) (k n : Nat) (outcome : Outcome) :
    EndsFrom s s (t.finishWrite k n outcome) :=
  endsFrom_finish (h.trans (.leaveWrite k n t)) ((closed_changeConn ..).trans hc) k outcome

theorem endsFrom_awaitCredit (k n : Nat) (data : Bytes) (written : Nat) (s : Session) :
    EndsFrom s s (s.awaitCredit k n data written).1 := by
  unfold awaitCredit
  split
  · exact .inl rfl
  · have hchange (outflow : Outflow Fiber) : s.Alike (s.changeConn n fun c => ({ c with outflow }, [])) :=
      .changeConn n (fun _ => rfl) (fun _ => rfl) s
    have hc (outflow : Outflow Fiber) :
        (s.changeConn n fun c => ({ c with outflow }, [])).closed = s.closed := closed_changeConn ..
    dsimp only
    split
    · exact .inl (hc _)
    · exact endsFrom_finishWrite (hchange _) (hc _) ..
    · unfold sendSegment
      dsimp only
      split
      · rename_i hp
        exact .inl ((closed_post hp).trans (hc _))
      · refine endsFrom_finishWrite (t := note _ _) ?_ (hc _) ..
        exact (hchange _).trans (.of_eq rfl rfl rfl)

theorem endsFrom_sendOn (k n : Nat) (data : Bytes) (written : Nat) (s : Session) :
    EndsFrom s s (s.sendOn k n data written).1 := by
  unfold sendOn
  split
  · exact .inl rfl
  · split
    · exact endsFrom_finishWrite (.refl s) rfl ..
    · split
      · exact endsFrom_finishWrite (.refl s) rfl ..
      · exact endsFrom_awaitCredit ..

theorem endsFrom_awaitData (k n : Nat) (want : Want) (s : Session) :
    EndsFrom s s (s.awaitData k n want).1 := by
  unfold awaitData
  split
  · exact .inl rfl
  · split
    · exact .inl (closed_changeConn ..)
    · rename_i inflow taken _
      have hchange : s.Alike (s.changeConn n fun c => ({ c with inflow }, [])) :=
        .changeConn n (fun _ => rfl) (fun _ => rfl) s
      have hnote : s.Alike ((s.changeConn n fun c => ({ c with inflow }, [])).note
          (.handedOut n taken)) := ⟨hchange.registry, hchange.staged, hchange.marks⟩
      exact endsFrom_finish (hnote.trans (.reportCredit n _))
        ((closed_reportCredit ..).trans (closed_changeConn ..)) ..

theorem endsFrom_leaveAccept (h : s.Alike t) (hc : t.closed = s.closed) (k : Nat) (outcome : Outcome) :
    EndsFrom s s ((t.leaveAccept k).finish k outcome) :=
  have hleave : t.Alike (t.leaveAccept k) := .of_eq rfl rfl rfl
  endsFrom_finish (h.trans hleave) hc k outcome

theorem endsFrom_awaitConn (k : Nat) (s : Session) : EndsFrom s s (s.awaitConn k).1 := by
  unfold awaitConn
  split
  · rename_i rest _ _
    have hrest : s.Alike ({ s with published := rest } : Session) := .of_eq rfl rfl rfl
    have hwake (t : Session) : t.Alike t.wakeAcceptor ∧ t.wakeAcceptor.closed = t.closed := by
      unfold wakeAcceptor
      split <;> exact ⟨.of_eq rfl rfl rfl, rfl⟩
    exact endsFrom_leaveAccept (hrest.trans (hwake _).1) (hwake _).2 ..
  · split
    · exact endsFrom_leaveAccept (.refl s) rfl ..
    · exact .inl rfl

/-- The turn of an open that waits for its answer may give up the connection first. -/
theorem endsFrom_awaitAnswer (k n : Nat) (due : Moment) (s : Session) :
    EndsFrom s s (s.awaitAnswer k n due).1 ∨
      (∃ d, s.conns[n]? = some d ∧ d.reply = .given false) ∧
        EndsFrom (s.refuse n) s (s.awaitAnswer k n due).1 := by
  have hclosed : (s.refuse n).closed = s.closed := by
    unfold refuse
    split
    · rfl
    · exact closed_shutConn ..
  unfold awaitAnswer
  split
  · exact .inl (endsFrom_finish (.refl s) rfl ..)
  · rename_i hgiven
    obtain ⟨d, hd, hreply⟩ := Option.map_eq_some_iff.1 hgiven
    exact .inr ⟨⟨d, hd, hreply⟩, endsFrom_finish (.refl _) hclosed ..⟩
  · split
    · exact .inl (endsFrom_finish (.refl s) rfl ..)
    · split
      · exact .inl (endsFrom_finish (.refl s) rfl ..)
      · exact .inl (.inl rfl)
  · exact .inl (endsFrom_finish (.refl s) rfl ..)

theorem endsFrom_beginCall (h : s.view.Coherent) (k : Nat) (request : Request) :
    EndsFrom s s (s.beginCall k request).1 := by
  unfold beginCall
  split
  · split
    · exact endsFrom_finish (.refl s) rfl ..
    · rename_i hopen
      exact .inl (closed_request h (eq_false_of_ne_true hopen) k)
  · split
    · exact endsFrom_finish (.refl s) rfl ..
    · exact .inl rfl
  · split
    · exact .inl rfl
    · split
      · exact endsFrom_finish (.refl s) rfl ..
      · exact .inl rfl
  · exact .inl (closed_changeConn ..)

theorem endsFrom_dropCall (k : Nat) (c : Call) (s : Session) : EndsFrom s s (s.dropCall k c) := by
  have hdrop {t : Session} (h : s.Alike t) (hc : t.closed = s.closed) :
      EndsFrom s s (t.setStage k .dropped).reap :=
    endsFrom_reap (t := t.setStage k .dropped) ⟨h.registry, h.staged, h.marks⟩ hc
  unfold dropCall
  dsimp only
  split
  · exact hdrop (.of_eq rfl rfl rfl) rfl
  · exact hdrop (.changeConn _ (fun _ => rfl) (fun _ => rfl) s) (closed_changeConn ..)
  · rename_i n _ _ _
    exact hdrop ((Alike.changeConn n (fun _ => rfl) (fun _ => rfl) s).trans (.leaveWrite k n _))
      ((closed_changeConn ..).trans (closed_changeConn ..))
  · exact hdrop (.leaveWrite k _ s) (closed_changeConn ..)
  · exact hdrop (.leaveWrite k _ s) (closed_changeConn ..)
  · exact hdrop (.refl s) rfl

/-- A turn of a call. -/
theorem endsFrom_callTurn (h : s.view.Coherent) (first : Bool) (k : Nat) :
    EndsFrom s s (s.callTurn first k).1 ∨
      ∃ r, s.refused? (.call k) first = some r ∧ EndsFrom (s.refuse r) s (s.callTurn first k).1 := by
  unfold callTurn
  split
  · exact .inl (.inl rfl)
  · rename_i c hc
    split
    · exact .inl (.inl rfl)
    · split
      · exact .inl (endsFrom_dropCall ..)
      · rename_i hlive
        split
        · exact .inl (endsFrom_beginCall h ..)
        · unfold continueCall
          split
          · rename_i n due hs
            split
            · exact .inl (endsFrom_finish (.refl s) rfl ..)
            · rename_i hsees
              refine (endsFrom_awaitAnswer k n due s).imp_right fun ⟨⟨d, hd, hreply⟩, hends⟩ =>
                ⟨n, ?_, hends⟩
              obtain ⟨request, stage, cancelled⟩ := c
              cases hs
              cases eq_false_of_ne_true hlive
              unfold refused?
              dsimp only
              rw [hc]
              dsimp only
              rw [if_neg hsees, if_pos (by rw [hd, Option.map_some, hreply])]
          · split
            · exact .inl (endsFrom_leaveAccept (.refl s) rfl ..)
            · exact .inl (endsFrom_awaitConn ..)
          · exact .inl (endsFrom_awaitData ..)
          · split
            · exact .inl (.inl rfl)
            · exact .inl (.inl rfl)
          · exact .inl (endsFrom_sendOn ..)
          · exact .inl (endsFrom_awaitCredit ..)
          · exact .inl (.inl rfl)

/-- A move lets the session go on, or ends it where the registry was as before the move, but for what
the refused connection that the move gives up took along. -/
theorem endsFrom_move (h : s.view.Coherent) {m : Move} (hm : s.move? m = some s') :
    EndsFrom s s s' ∨ ∃ fiber first r, m = .run fiber first ∧ s.refused? fiber first = some r ∧
      EndsFrom (s.refuse r) s s' := by
  cases m with
  | ask request =>
    unfold move? ask at hm
    dsimp only at hm
    split at hm <;> cases hm
    exact .inl (.inl rfl)
  | cancel k =>
    cases hm
    refine .inl (.inl ?_)
    unfold cancel
    split
    · rfl
    · split <;> rfl
  | close =>
    unfold move? close? at hm
    dsimp only at hm
    split at hm
    · split at hm <;> cases hm
      exact .inl (endsFrom_close rfl rfl (.refl s) rfl)
    · cases hm
  | dropHandle =>
    unfold move? at hm
    dsimp only at hm
    split at hm <;> cases hm
    exact .inl (endsFrom_reap (t := { s with handle := false }) (.of_eq rfl rfl rfl) rfl)
  | closeConn n =>
    unfold move? at hm
    dsimp only at hm
    split at hm <;> cases hm
    exact .inl (.inl (closed_closeConn ..))
  | deliver bytes => cases hm; exact .inl (.inl (congrArg View.closed (view_deliver bytes s)))
  | endInput ending => cases hm; exact .inl (.inl (congrArg View.closed (view_endInput ending s)))
  | takeOutput count => cases hm; exact .inl (.inl (congrArg View.closed (view_takeOutput count s)))
  | resizeOutput capacity =>
    cases hm
    exact .inl (.inl (congrArg View.closed (view_resizeOutput capacity s)))
  | breakOutput => cases hm; exact .inl (.inl (congrArg View.closed (view_breakOutput s)))
  | advance span => cases hm; exact .inl (.inl rfl)
  | run fiber first =>
    unfold move? at hm
    dsimp only at hm
    split at hm <;> cases hm
    have hrun : (s.run fiber first).closed = (s.takeTurn fiber first).1.closed ∧
        (s.run fiber first).conns = (s.takeTurn fiber first).1.conns := by
      rw [run_eq]
      split <;> exact ⟨rfl, rfl⟩
    have hends {held : Session} (hturn : EndsFrom held { s with ready := s.ready.erase fiber }
        (s.takeTurn fiber first).1) : EndsFrom held s (s.run fiber first) :=
      hturn.imp hrun.1.trans fun ⟨t, halike, hopen, hconns⟩ => ⟨t, halike, hopen, hrun.2.trans hconns⟩
    have hsame {t : Session} (hturn : EndsFrom { s with ready := s.ready.erase fiber }
        { s with ready := s.ready.erase fiber } t) :
        EndsFrom s { s with ready := s.ready.erase fiber } t :=
      hturn.imp_right fun ⟨r, ⟨hreg, hstaged, hmarks⟩, hrest⟩ => ⟨r, ⟨hreg, hstaged, hmarks⟩, hrest⟩
    cases fiber with
    | writer => exact .inl (hends (hsame (endsFrom_writerTurn ..)))
    | reader => exact .inl (hends (hsame (endsFrom_readerTurn ..)))
    | acceptor => exact .inl (hends (.inl (closed_acceptorTurn ..)))
    | pinger => exact .inl (hends (hsame (endsFrom_pingerTurn ..)))
    | returns => exact .inl (hends (.inl (closed_returnsTurn ..)))
    | call k =>
      rcases endsFrom_callTurn (s := { s with ready := s.ready.erase (.call k) }) h first k with
        hturn | ⟨r, hr, hturn⟩
      · exact .inl (hends (hsame hturn))
      · refine .inr ⟨_, _, r, rfl, hr, hends (hturn.imp_right ?_)⟩
        exact fun ⟨t, halike, hrest⟩ => ⟨t, (Alike.refuse r _ s).trans halike, hrest⟩

end Session

end StreamMux
