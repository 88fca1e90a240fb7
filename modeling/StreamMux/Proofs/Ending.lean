import Mathlib.Order.WellFounded
import StreamMux.Proofs.Agreement
import StreamMux.Proofs.Closing

/-! The end of a session is complete and comes once. Whatever was registered or staged is closed,
nothing new gets in, and the calls that the end wakes run out: after that nobody waits but on a
connection that the session had lost sight of. -/

namespace StreamMux

/-- How many turns a call may still take once the session has ended, if nothing wakes it in vain. -/
def Call.rank (c : Call) : Nat :=
  match c.stage with
  | .fresh => 4
  | .inLine => 3
  | .sending _ => 2
  | .over _ | .dropped => 0
  | _ => 1

theorem Call.rank_pos {c : Call} (h : ¬ c.isOver = true) : 0 < c.rank := by
  unfold Call.isOver at h
  unfold Call.rank
  cases hs : c.stage <;> rw [hs] at h <;> first | exact absurd rfl h | exact Nat.succ_pos _

theorem sum_modify {α : Type} {l : List α} {k : Nat} {a : α} (f : α → α) (g : α → Nat)
    (h : l[k]? = some a) : ((l.modify k f).map g).sum + g a = (l.map g).sum + g (f a) := by
  induction l generalizing k with
  | nil => cases h
  | cons x l ih =>
    cases k with
    | zero =>
      cases h
      simp only [List.modify_zero_cons, List.map_cons, List.sum_cons]
      omega
    | succ k =>
      have hrest := ih (k := k) h
      simp only [List.modify_succ_cons, List.map_cons, List.sum_cons]
      omega

namespace View

variable {v w : View} {may : View → Nat → Prop}

/-- A closed connection stays closed. -/
theorem Filing.stays_closed (hf : Filing may v w) (hfiled : v.Filed) {n : Nat} {id : Int32}
    (hn : v.marks[n]? = some (id, true)) : w.marks[n]? = some (id, true) := by
  have happend {mark : Int32 × Bool} (hm : w.marks = v.marks ++ [mark]) : w.marks[n]? = some (id, true) := by
    rw [hm, List.getElem?_append_left (lt_length_of_mark hn), hn]
  have hset {m : Nat} {i : Int32} {c : Bool} (hmark : v.marks[m]? = some (i, c))
      (hm : w.marks = v.marks.set m (i, true)) : w.marks[n]? = some (id, true) := by
    rw [hm, List.getElem?_set]
    by_cases hmn : m = n
    · subst hmn
      cases hn.symm.trans hmark
      rw [if_pos rfl, if_pos (lt_length_of_mark hn)]
    · rw [if_neg hmn, hn]
  cases hf with
  | same marks => rw [marks, hn]
  | opened _ _ marks => exact happend marks
  | asked _ _ marks => exact happend marks
  | registered _ _ _ _ _ marks => rw [marks, hn]
  | turnedAway m i marks _ staged =>
    obtain ⟨j, hj⟩ := hfiled.staged_open m (by rw [staged]; exact List.mem_cons_self ..)
    by_cases hmn : m = n
    · subst hmn
      cases hn.symm.trans hj
    · rw [marks, List.getElem?_set, if_neg hmn, hn]
  | dropped m i c mark _ _ marks => exact hset mark marks
  | ended ids marks =>
    obtain ⟨c, hc⟩ := ids n id true hn
    cases c with
    | true => exact hc
    | false => cases hn.symm.trans (marks n id hc).1

theorem Steps.stays_closed (hs : Steps may v w) (hfiled : v.Filed) {n : Nat} {id : Int32}
    (hn : v.marks[n]? = some (id, true)) : w.marks[n]? = some (id, true) := by
  have hboth : w.Filed ∧ w.marks[n]? = some (id, true) := by
    induction hs with
    | refl => exact ⟨hfiled, hn⟩
    | tail _ hstep ih =>
      obtain ⟨hf, hm⟩ := ih
      exact ⟨hstep.filed hf, (hstep.filing fun i m hl => ⟨_, hf.mark_of_lookup hl⟩).stays_closed hf hm⟩
  exact hboth.2

/-- What is open after the end of a session was open, and neither registered nor staged. -/
theorem marks_shutAll {conns : List Nat} {n : Nat} {id : Int32}
    (h : (v.shutAll conns).marks[n]? = some (id, false)) :
    v.marks[n]? = some (id, false) ∧ n ∉ conns := by
  simp only [marks, List.getElem?_map, shutAll_getElem?, Option.map_map, Option.map_eq_some_iff] at h ⊢
  obtain ⟨f, hf, hmark⟩ := h
  dsimp only [Function.comp_apply] at hmark
  split at hmark
  · cases hmark
  · rename_i hn
    exact ⟨⟨f, hf, hmark⟩, hn⟩

end View

namespace Session

variable {s s' t : Session}

/-! ### The state of an ended session -/

/-- The session has ended: it holds nothing, and lets nothing in. -/
structure Ended (s : Session) : Prop where
  closed : s.closed = true
  /-- Nothing is registered, and nothing can be. -/
  entries : s.registry.entries = []
  refuses : ∀ id n, s.registry.insertNew id n = none
  outbox_stopped : s.outbox.state.stopped = true
  outbox_empty : s.outbox.state.toList = []
  mute : ∀ out, s.post out = none
  staged_stopped : s.staged.state.stopped = true
  staged_empty : s.staged.state.toList = []
  /-- Both windows of a closed connection are stopped. -/
  windows : ∀ (n : Nat) (c : Conn), s.conns[n]? = some c → c.closed = true →
    c.inflow.state.stopped = true ∧ c.outflow.state.closed = true

theorem windows_of_sound {settings : Settings} (h : s.view.Sound settings) {n : Nat} {c : Conn}
    (hc : s.conns[n]? = some c) : c.inflow.state.stopped = (c.closed || c.closing) ∧
      c.outflow.state.closed = (c.closed || c.closing) := by
  have hf : s.view.faces[n]? = some c.face := by rw [view_faces_getElem?, hc]; rfl
  obtain ⟨story, hstory, hface⟩ := View.exists_story hf
  have hsound := h.stories n story hstory
  have hr := hsound.receive_stopped
  have hs := hsound.send_closed
  rw [hface] at hr hs
  exact ⟨hr, hs⟩

theorem ended_of_closed {settings : Settings} (h : s.view.Sound settings) (hc : s.closed = true) :
    s.Ended where
  closed := hc
  entries := h.coherent.no_entries hc
  refuses id n := if_pos (.inl (h.coherent.registry.trans hc))
  outbox_stopped := h.coherent.outbox.trans hc
  outbox_empty := h.coherent.no_frames hc
  mute out := if_pos hc
  staged_stopped := h.coherent.staged.trans hc
  staged_empty := h.coherent.no_staged hc
  windows n c hn hclosed := by
    obtain ⟨hr, hs⟩ := windows_of_sound h hn
    rw [hr, hs, hclosed]
    exact ⟨rfl, rfl⟩

/-! ### What the end closes -/

theorem faces_close (hopen : t.closed = false) :
    t.close.view.faces = (t.view.shutAll (t.registry.close.2 ++ t.staged.state.toList)).faces := by
  simp only [close, hopen, Bool.false_eq_true, ↓reduceIte]
  rw [view_stopStaged, view_stopOutbox, view_wake, view_foldl_shutConn, view_note]
  simp only [Event.isTraffic, Bool.false_eq_true, ↓reduceIte]
  have happend := View.shutAll_append t.registry.close.2 t.staged.state.toList t.view
  rw [happend]
  rfl

theorem marks_close (hopen : t.closed = false) (hreg : t.registry.closed = false) :
    t.close.view.marks =
      (t.view.shutAll (t.registry.entries.map (·.2) ++ t.staged.state.toList)).marks := by
  have hconns : t.registry.close.2 = t.registry.entries.map (·.2) := by simp [Registry.close, hreg]
  unfold View.marks
  rw [faces_close hopen, hconns]

/-- The end closes what is registered or staged when it comes, and stops the windows. -/
theorem close_closes (hopen : t.closed = false) {n : Nat} {c : Conn} (hc : t.conns[n]? = some c)
    (hheld : (∃ id, t.registry.get? id = some n) ∨ n ∈ t.staged.state.toList) :
    ∃ d, t.close.conns[n]? = some d ∧ d.closed = true ∧ d.inflow.state.stopped = true ∧
      d.outflow.state.closed = true := by
  have hmem : n ∈ t.registry.close.2 ++ t.staged.state.toList := by
    refine List.mem_append.2 (hheld.imp_left fun ⟨id, hid⟩ => ?_)
    unfold Registry.get? at hid
    split at hid
    · cases hid
    · rename_i hreg
      simp only [Registry.close, hreg]
      exact List.mem_map.2 ⟨(id, n), Registry.mem_of_lookup hid, rfl⟩
  have hface : t.close.view.faces[n]? = some c.face.shut := by
    rw [faces_close hopen, View.shutAll_getElem?, view_faces_getElem?, hc]
    exact congrArg some (if_pos hmem)
  rw [view_faces_getElem?] at hface
  obtain ⟨d, hd, hdc⟩ := Option.map_eq_some_iff.1 hface
  exact ⟨d, hd, congrArg Face.closed hdc, congrArg (fun f => f.receive.stopped) hdc,
    congrArg (fun f => f.send.closed) hdc⟩

/-- The connection under the id of the refused one that the move gives up. -/
def evicts? (m : Move) (s : Session) : Option Nat :=
  match m with
  | .run fiber first =>
    (s.refused? fiber first).bind fun r => s.conns[r]?.bind fun d => s.registry.get? d.id
  | _ => none

/-- With a move that ends the session every connection is closed that was registered or staged, but the
one that a refused connection takes along. -/
theorem closes_of_ends (hco : s.view.Coherent) {m : Move} (hm : s.move? m = some s')
    (hopen : s.closed = false) (hended : s'.closed = true) {n : Nat} {c' : Conn}
    (hc' : s'.conns[n]? = some c') (hlive : c'.closed = false) :
    ∃ c, s.conns[n]? = some c ∧ c.closed = false ∧ n ∉ s.staged.state.toList ∧
      ((∀ id, s.registry.get? id ≠ some n) ∨ s.evicts? m = some n) := by
  have hreg : s.registry.closed = false := hco.registry.trans hopen
  have hget (id : Int32) : s.registry.get? id = s.registry.lookup id := by simp [Registry.get?, hreg]
  have hends {held : Session} (h : EndsFrom held s s') (hr : held.registry.closed = false) :
      held.view.marks[n]? = some (c'.id, false) ∧ n ∉ held.staged.state.toList ∧
        ∀ id, held.registry.lookup id ≠ some n := by
    rcases h with hsame | ⟨t, halike, ht, hconns⟩
    · rw [hsame, hopen] at hended
      cases hended
    · have hmark : t.close.view.marks[n]? = some (c'.id, false) := by
        rw [hconns] at hc'
        rw [mark_of_conn hc', hlive]
      rw [marks_close ht (halike.registry ▸ hr)] at hmark
      obtain ⟨hmark, hnot⟩ := View.marks_shutAll hmark
      rw [halike.registry, halike.staged, List.mem_append, not_or] at hnot
      exact ⟨halike.marks ▸ hmark, hnot.2, fun id hl =>
        hnot.1 (List.mem_map.2 ⟨(id, n), Registry.mem_of_lookup hl, rfl⟩)⟩
  rcases endsFrom_move hco hm with h | ⟨fiber, first, r, rfl, hr, h⟩
  · obtain ⟨hmark, hstaged, hfree⟩ := hends h hreg
    obtain ⟨c, hc, -, hclosed⟩ := exists_of_mark hmark
    exact ⟨c, hc, hclosed, hstaged, .inl fun id => hget id ▸ hfree id⟩
  · obtain ⟨k, b, due, d, rfl, -, -, -, -, hd, -⟩ := exists_of_refused? hr
    have hview := view_refuse hd
    have hheld : (s.refuse r).registry = (s.registry.delete d.id).1 := congrArg View.registry hview
    obtain ⟨hmark, hstaged, hfree⟩ := hends h (by rw [hheld]; exact hreg)
    have hstaged' : (s.refuse r).staged.state = s.staged.state := congrArg View.staged hview
    rw [hstaged'] at hstaged
    rw [hview, View.marks_setFace, List.getElem?_set] at hmark
    split at hmark
    · split at hmark
      · have hshut : d.face.shut.closed = true := rfl
        exact absurd (congrArg (Option.map Prod.snd) hmark) (by simp [hshut])
      · cases hmark
    · obtain ⟨c, hc, -, hclosed⟩ := exists_of_mark (s := s) hmark
      refine ⟨c, hc, hclosed, hstaged, ?_⟩
      by_cases hid : s.registry.lookup d.id = some n
      · refine .inr ?_
        unfold evicts?
        dsimp only
        rw [hr, Option.bind_some, hd, Option.bind_some, hget, hid]
      · refine .inl fun id hl => ?_
        rw [hget] at hl
        have hdel := hfree id
        rw [hheld, Registry.lookup_delete] at hdel
        split at hdel
        · rename_i he
          exact hid (he ▸ hl)
        · exact hdel hl

/-! ### Calls on an ended session -/

/-- Opens and accepts that begin fail at once. -/
def Rejects (s : Session) : Prop :=
  ∀ (k : Nat) (c : Call) (first : Bool), s.calls[k]? = some c → c.stage = .fresh → c.cancelled = false →
    (c.request = .openConn → ∃ d, (s.run (.call k) first).calls[k]? = some d ∧
      d.stage = .over (.failed .sessionClosed)) ∧
    (c.request = .accept → ∃ d, (s.run (.call k) first).calls[k]? = some d ∧
      d.stage = .over (.failed .acceptClosed))

/-- A connection that the session did not close when it ended. -/
def Escaped (n : Nat) (s : Session) : Prop := ∃ d : Conn, s.conns[n]? = some d ∧ d.closed = false

/-- No call waits, but reads and writes on escaped connections. -/
def Quiet (s : Session) : Prop :=
  ∀ (k : Nat) (c : Call), s.calls[k]? = some c →
    c.isOver = true ∨ ∃ n, c.request.conn? = some n ∧ s.Escaped n

@[simp] theorem calls_close (s : Session) : s.close.calls = s.calls := by
  have hstaged (t : Session) : t.stopStaged.calls = t.calls := Tended.foldl_calls ..
  have houtbox (t : Session) : t.stopOutbox.calls = t.calls := rfl
  have hwake (fibers : List Fiber) (t : Session) : (t.wake fibers).calls = t.calls := rfl
  unfold close
  split
  · rfl
  · dsimp only
    rw [hstaged, houtbox, hwake, Tended.foldl_calls]
    rfl

@[simp] theorem calls_reap (s : Session) : s.reap.calls = s.calls := by
  unfold reap
  split
  · rfl
  · exact calls_close s

theorem calls_finish (k : Nat) (outcome : Outcome) (s : Session) :
    (s.finish k outcome).calls = (s.setStage k (.over outcome)).calls := calls_reap _

theorem rejects_of_closed (hclosed : s.closed = true) : s.Rejects := by
  intro k c first hc hfresh hlive
  have hover : ¬ c.isOver = true := by unfold Call.isOver; rw [hfresh]; exact Bool.false_ne_true
  have hturn : s.takeTurn (.call k) first =
      ({ s with ready := s.ready.erase (.call k) } : Session).beginCall k c.request := by
    change callTurn first k { s with ready := s.ready.erase (.call k) } = _
    unfold callTurn
    dsimp only
    rw [hc]
    dsimp only
    rw [if_neg hover, if_neg (by rw [Call.isGivenUp_of_live hlive]; exact Bool.false_ne_true), if_pos hfresh]
  have hrun {outcome : Outcome} (ht : s.takeTurn (.call k) first =
      (({ s with ready := s.ready.erase (.call k) } : Session).finish k outcome, false)) :
      ∃ d, (s.run (.call k) first).calls[k]? = some d ∧ d.stage = .over outcome := by
    unfold run
    rw [ht]
    dsimp only
    rw [calls_finish]
    exact ⟨_, setStage_self (s := { s with ready := s.ready.erase (.call k) }) hc _, rfl⟩
  constructor
  · intro hreq
    refine hrun (hturn.trans ?_)
    rw [hreq]
    exact if_pos hclosed
  · intro hreq
    refine hrun (hturn.trans ?_)
    rw [hreq]
    exact if_pos hclosed

/-- Where no call is ready in an ended session, nobody waits. -/
theorem quiet_of_idle {settings : Settings} (hsound : s.view.Sound settings) (ht : Tended nobody none s)
    (hclosed : s.closed = true) (hidle : ∀ k, .call k ∉ s.ready) : s.Quiet := by
  -- whoever waits on a window waits on an open connection
  have hasleep {k : Nat} {c : Call} (hc : s.calls[k]? = some c) (hover : ¬ c.isOver = true) :
      c.stage = .inLine ∨ ∃ n, c.request.conn? = some n ∧ s.Escaped n := by
    rcases (ht.rests k c hc id).place with h | h | h
    · exact absurd h hover
    · exact absurd h (hidle k)
    · unfold Parked at h
      split at h
      · rw [hclosed] at h; cases h
      · rw [hclosed] at h; cases h
      · obtain ⟨n, d, hreq, hd, hmem⟩ := h
        have hopen := (ht.calm n d hd).readers (List.ne_nil_of_mem hmem)
        rw [(windows_of_sound hsound hd).1, Bool.or_eq_false_iff] at hopen
        exact .inr ⟨n, hreq, d, hd, hopen.1⟩
      · rename_i hs
        exact .inl hs
      · obtain ⟨n, d, hreq, hd, hmem⟩ := h
        have hopen := ((ht.calm n d hd).writers (List.ne_nil_of_mem hmem)).1
        rw [(windows_of_sound hsound hd).2, Bool.or_eq_false_iff] at hopen
        exact .inr ⟨n, hreq, d, hd, hopen.1⟩
      · exact absurd h id
  intro k c hc
  by_cases hover : c.isOver = true
  · exact .inl hover
  refine .inr ((hasleep hc hover).elim (fun hs => ?_) id)
  -- in front of the line stands a holder, who waits for credit and not in the line
  have hparked := ((ht.rests k c hc id).place.resolve_left hover).resolve_left (hidle k)
  unfold Parked at hparked
  rw [hs] at hparked
  obtain ⟨n, d, hreq, hd, hmem⟩ := hparked
  obtain ⟨hheld, hnodup⟩ := (ht.calm n d hd).lock
  obtain ⟨h, hh⟩ := Option.ne_none_iff_exists'.1 fun hnone => List.ne_nil_of_mem hmem (hheld hnone)
  obtain ⟨b, hb, huses⟩ := ht.members n d h hd (by rw [Lock.members, hh]; exact List.mem_cons_self ..)
  obtain ⟨data, hdata⟩ := huses.request_eq
  have hb_over : ¬ b.isOver = true := fun hover =>
    Call.not_usesLock (Call.isWriting_of_isOver hover) n huses
  refine ⟨n, hreq, ?_⟩
  rcases hasleep hb hb_over with hbs | ⟨m, hm, hesc⟩
  · have hbparked := ((ht.rests h b hb id).place.resolve_left hb_over).resolve_left (hidle h)
    unfold Parked at hbparked
    rw [hbs] at hbparked
    obtain ⟨m, e, hm, he, hline⟩ := hbparked
    rw [hdata] at hm
    cases hm
    cases hd.symm.trans he
    rw [Lock.members, hh] at hnodup
    exact absurd hline (List.nodup_cons.1 hnodup).1
  · rw [hdata] at hm
    cases hm
    exact hesc

/-! ### The woken calls run out -/

theorem ready_changeConn {n : Nat} {change : Conn → Conn × List Fiber} (h : ∀ c, (change c).2 = []) :
    (s.changeConn n change).ready = s.ready := by
  unfold changeConn
  split
  · rfl
  · rename_i c _
    change joinLine s.ready (change c).2 = s.ready
    rw [h]
    rfl

def toil (s : Session) : Nat := (s.calls.map Call.rank).sum

/-- The turn of a call brings some call nearer to its end, or the call goes to sleep and wakes nobody. -/
def Winds (s : Session) (r : Session × Bool) : Prop :=
  r.1.toil < s.toil ∨ r.1.toil = s.toil ∧ r.1.ready = s.ready ∧ r.2 = false

namespace Winds

variable {k n : Nat} {c : Call}

theorem same (s : Session) : Winds s (s, false) := .inr ⟨rfl, rfl, rfl⟩

theorem toil_setStage (stage : CallStage) (hcalls : t.calls = s.calls) (hc : s.calls[k]? = some c)
    (hrank : ({ c with stage } : Call).rank < c.rank) : (t.setStage k stage).toil < s.toil := by
  have hsum := sum_modify (fun c : Call => { c with stage }) Call.rank hc
  unfold toil setStage
  dsimp only
  rw [hcalls]
  omega

theorem reach (hcalls : t.calls = s.calls) (hc : s.calls[k]? = some c) {stage : CallStage}
    (hrank : ({ c with stage } : Call).rank < c.rank) (goesOn : Bool) :
    Winds s (t.setStage k stage, goesOn) := .inl (toil_setStage stage hcalls hc hrank)

theorem finish (hcalls : t.calls = s.calls) (hc : s.calls[k]? = some c) (hover : ¬ c.isOver = true)
    (outcome : Outcome) : Winds s (t.finish k outcome, false) := by
  have hless := toil_setStage (.over outcome) hcalls hc (Call.rank_pos hover)
  unfold toil at hless
  refine .inl ?_
  unfold toil
  rw [calls_finish]
  exact hless

theorem leaveAccept (hcalls : t.calls = s.calls) (hc : s.calls[k]? = some c) (hover : ¬ c.isOver = true)
    (outcome : Outcome) : Winds s ((t.leaveAccept k).finish k outcome, false) :=
  have hleave : (t.leaveAccept k).calls = s.calls := hcalls
  finish hleave hc hover outcome

theorem finishWrite (hcalls : t.calls = s.calls) (hc : s.calls[k]? = some c) (hover : ¬ c.isOver = true)
    (n : Nat) (outcome : Outcome) : Winds s (t.finishWrite k n outcome, false) :=
  finish ((calls_changeConn ..).trans hcalls) hc hover outcome

theorem awaitCredit (hclosed : s.closed = true) (hc : s.calls[k]? = some c) {written : Nat}
    (hs : c.stage = .sending written ∨ c.stage = .crediting written) (n : Nat) (data : Bytes) :
    Winds s (s.awaitCredit k n data written) := by
  have hover : ¬ c.isOver = true := by
    unfold Call.isOver
    rcases hs with hs | hs <;> rw [hs] <;> exact Bool.false_ne_true
  unfold Session.awaitCredit
  split
  · exact same s
  · have hcalls (outflow : Outflow Fiber) :
        (s.changeConn n fun c => ({ c with outflow }, [])).calls = s.calls := calls_changeConn ..
    dsimp only
    split
    · rcases hs with hs | hs
      · exact reach (hcalls _) hc (by unfold Call.rank; rw [hs]; exact Nat.lt_succ_self 1) false
      · -- the stage is that of before
        have hsum := sum_modify (fun c : Call => { c with stage := .crediting written }) Call.rank hc
        refine .inr ⟨?_, ready_changeConn fun _ => rfl, rfl⟩
        unfold toil setStage
        dsimp only
        rw [hcalls]
        have hrank : ({ c with stage := .crediting written } : Call).rank = c.rank := by
          unfold Call.rank
          rw [hs]
        omega
    · exact finishWrite (hcalls _) hc hover ..
    · unfold sendSegment
      dsimp only
      split
      · rename_i hp
        have hopen : s.closed = false := (closed_changeConn ..).symm.trans (view_post hp).1
        cases hclosed.symm.trans hopen
      · exact finishWrite (t := note _ _) (hcalls _) hc hover ..

theorem sendOn (hclosed : s.closed = true) (hc : s.calls[k]? = some c) {written : Nat}
    (hs : c.stage = .sending written) (n : Nat) (data : Bytes) : Winds s (s.sendOn k n data written) := by
  have hover : ¬ c.isOver = true := by
    unfold Call.isOver
    rw [hs]
    exact Bool.false_ne_true
  unfold Session.sendOn
  split
  · exact same s
  · split
    · exact finishWrite rfl hc hover ..
    · split
      · exact finishWrite rfl hc hover ..
      · exact awaitCredit hclosed hc (.inl hs) n data

theorem awaitData (hc : s.calls[k]? = some c) (hover : ¬ c.isOver = true) (n : Nat) (want : Want) :
    Winds s (s.awaitData k n want) := by
  unfold Session.awaitData
  split
  · exact same s
  · split
    · refine .inr ⟨?_, ready_changeConn fun _ => rfl, rfl⟩
      unfold toil
      rw [calls_changeConn]
    · refine finish ?_ hc hover _
      rw [calls_reportCredit]
      exact calls_changeConn ..

theorem awaitConn (hclosed : s.closed = true) (hc : s.calls[k]? = some c) (hover : ¬ c.isOver = true) :
    Winds s (s.awaitConn k) := by
  unfold Session.awaitConn
  split
  · rename_i rest _ _
    have hwake : ({ s with published := rest } : Session).wakeAcceptor.calls = s.calls :=
      calls_wakeAcceptor _
    exact leaveAccept hwake hc hover _
  · rw [if_pos hclosed]
    exact leaveAccept rfl hc hover _

theorem awaitAnswer (hclosed : s.closed = true) (hc : s.calls[k]? = some c) (hover : ¬ c.isOver = true)
    (n : Nat) (due : Moment) : Winds s (s.awaitAnswer k n due) := by
  unfold Session.awaitAnswer
  split
  · exact finish rfl hc hover _
  · exact finish (calls_refuse ..) hc hover _
  · split
    · exact finish rfl hc hover _
    · exact finish rfl hc hover _
  · exact finish rfl hc hover _

theorem beginCall (hclosed : s.closed = true) (hc : s.calls[k]? = some c) (hs : c.stage = .fresh) :
    Winds s (s.beginCall k c.request) := by
  have hover : ¬ c.isOver = true := by
    unfold Call.isOver
    rw [hs]
    exact Bool.false_ne_true
  have hfresh : c.rank = 4 := by
    unfold Call.rank
    rw [hs]
  unfold Session.beginCall
  split
  · rw [if_pos hclosed]
    exact finish rfl hc hover _
  · rw [if_pos hclosed]
    exact finish rfl hc hover _
  · split
    · exact same s
    · split
      · exact finish rfl hc hover _
      · exact reach rfl hc (by rw [hfresh]; exact Nat.lt_of_sub_eq_succ rfl) true
  · exact reach (calls_changeConn ..) hc (by rw [hfresh]; exact Nat.lt_succ_self 3) true

theorem dropCall (hc : s.calls[k]? = some c) (hover : ¬ c.isOver = true) :
    Winds s (s.dropCall k c, false) := by
  have hdrop {t : Session} (hcalls : t.calls = s.calls) : Winds s ((t.setStage k .dropped).reap, false) := by
    have hless := toil_setStage .dropped hcalls hc (Call.rank_pos hover)
    unfold toil at hless
    refine .inl ?_
    unfold toil
    rw [calls_reap]
    exact hless
  unfold Session.dropCall
  dsimp only
  split
  · exact hdrop rfl
  · exact hdrop (calls_changeConn ..)
  · exact hdrop ((calls_changeConn ..).trans (calls_changeConn ..))
  · exact hdrop (calls_changeConn ..)
  · exact hdrop (calls_changeConn ..)
  · exact hdrop rfl

theorem callTurn (hclosed : s.closed = true) (first : Bool) (k : Nat) :
    Winds s (s.callTurn first k) := by
  unfold Session.callTurn
  split
  · exact same s
  · rename_i c hc
    split
    · exact same s
    · rename_i hover
      split
      · exact dropCall hc hover
      · split
        · rename_i hs
          exact beginCall hclosed hc hs
        · unfold continueCall
          split
          · split
            · exact finish rfl hc hover _
            · exact awaitAnswer hclosed hc hover ..
          · split
            · exact leaveAccept rfl hc hover _
            · exact awaitConn hclosed hc hover
          · exact awaitData hc hover ..
          · rename_i hs _
            split
            · refine reach rfl hc ?_ true
              unfold Call.rank
              rw [hs]
              exact Nat.lt_succ_self 2
            · exact same s
          · rename_i hs _
            exact sendOn hclosed hc hs ..
          · rename_i hs _
            exact awaitCredit hclosed hc (.inr hs) ..
          · exact same s

end Winds

/-- A ready call takes a turn. -/
def CallRuns (s t : Session) : Prop := ∃ k first, Fiber.call k ∈ s.ready ∧ t = s.run (.call k) first

theorem lex_of_callRuns (hclosed : s.closed = true) (h : s.CallRuns t) :
    Prod.Lex (· < ·) (· < ·) (t.toil, t.ready.length) (s.toil, s.ready.length) := by
  obtain ⟨k, first, hready, rfl⟩ := h
  have hwinds := Winds.callTurn (s := { s with ready := s.ready.erase (.call k) }) hclosed first k
  have hpos := List.length_pos_of_mem hready
  have herase := List.length_erase_of_mem hready
  change Winds _ (s.takeTurn (.call k) first) at hwinds
  unfold run
  split <;> rename_i t ht <;> rw [ht] at hwinds
  · rcases hwinds with hless | ⟨-, -, hstop⟩
    · exact .left _ _ hless
    · cases hstop
  · rcases hwinds with hless | ⟨htoil, hsleep, -⟩
    · exact .left _ _ hless
    · have hlength : t.ready.length < s.ready.length := by
        rw [show t.ready = s.ready.erase (.call k) from hsleep, herase]
        omega
      have hsame : t.toil = s.toil := htoil
      rw [hsame]
      exact .right _ hlength

theorem CallRuns.move (h : s.CallRuns t) : ∃ m, s.move? m = some t := by
  obtain ⟨k, first, hready, rfl⟩ := h
  exact ⟨.run (.call k) first, if_pos hready⟩

/-- No run consists of turns of calls on an ended session and goes on forever. -/
theorem not_callRuns_forever {f : Nat → Session} (hclosed : ∀ i, (f i).closed = true)
    (hstep : ∀ i, (f i).CallRuns (f (i + 1))) : False :=
  (wellFounded_iff_isEmpty_descending_chain.1 (Prod.lex Nat.lt_wfRel Nat.lt_wfRel).wf).false
    ⟨fun i => ((f i).toil, (f i).ready.length), fun i => lex_of_callRuns (hclosed i) (hstep i)⟩

/-! ### The end -/

variable {settings : Settings} {kind : LinkKind} {address : Option String} {capacity : Option Nat}
  {wall : Stamp}

theorem Reachable.trans {r : Session} (h : Reachable r s) (h' : Reachable s t) : Reachable r t := by
  induction h' with
  | refl => exact h
  | move m _ hm ih => exact .move m ih hm

/-- Closing a session that is open ends it, and closing one that has ended is an error and changes
nothing. The end closes every connection that is registered or staged at that moment. Those are the ones
that were so before the move that brings it, whichever it is, but for one that a refused connection takes
out of the registry. From then on the session holds nothing
and lets nothing in, what is closed stays closed, and opens and accepts fail. The calls do not run
forever; where none is ready, none waits, but on a connection that the session did not close. -/
theorem ends_once_and_for_all (settings : Settings) (kind : LinkKind) (address : Option String)
    (capacity : Option Nat) (wall : Stamp) {s : Session}
    (h : Reachable (start settings kind address capacity wall) s) :
    (s.closed = false → s.close? = .ok s.close ∧ s.close.closed = true) ∧
    (∀ t : Session, t.closed = false → ∀ (n : Nat) (c : Conn), t.conns[n]? = some c →
      ((∃ id, t.registry.get? id = some n) ∨ n ∈ t.staged.state.toList) →
      ∃ d, t.close.conns[n]? = some d ∧ d.closed = true ∧ d.inflow.state.stopped = true ∧
        d.outflow.state.closed = true) ∧
    (∀ m s', s.move? m = some s' → s.closed = false → s'.closed = true →
      ∀ (n : Nat) (c' : Conn), s'.conns[n]? = some c' → c'.closed = false →
        ∃ c, s.conns[n]? = some c ∧ c.closed = false ∧ n ∉ s.staged.state.toList ∧
          ((∀ id, s.registry.get? id ≠ some n) ∨ s.evicts? m = some n)) ∧
    (s.closed = true →
      (∀ t, Reachable s t → t.close? = .error .alreadyClosed ∧ t.close = t ∧ t.Ended ∧ t.Rejects ∧
        (∀ (n : Nat) (c : Conn), s.conns[n]? = some c → c.closed = true →
          ∃ d, t.conns[n]? = some d ∧ d.closed = true) ∧
        ((∀ k, .call k ∉ t.ready) → t.Quiet)) ∧
      ¬ ∃ f : Nat → Session, f 0 = s ∧ ∀ i, (f i).CallRuns (f (i + 1))) := by
  have hsound := h.sound
  have hlater {t : Session} (ht : Reachable s t) (hclosed : s.closed = true) : t.closed = true :=
    (ht.steps hsound.coherent).closed_mono hclosed
  refine ⟨fun hopen => ?_, fun t hopen n c => close_closes hopen,
    fun m s' hm hopen hended n c' => closes_of_ends hsound.coherent hm hopen hended,
    fun hclosed => ⟨fun t ht => ?_, ?_⟩⟩
  · refine ⟨if_neg (by rw [hopen]; exact Bool.false_ne_true), ?_⟩
    exact congrArg View.closed (view_close hsound.coherent hopen)
  · have ht_closed := hlater ht hclosed
    have hreach := h.trans ht
    refine ⟨if_pos ht_closed, if_pos ht_closed, ended_of_closed hreach.sound ht_closed,
      rejects_of_closed ht_closed, fun n c hc hcc => ?_,
      quiet_of_idle hreach.sound hreach.tended ht_closed⟩
    have hmark := (ht.steps hsound.coherent).stays_closed hsound.filed (hcc ▸ mark_of_conn hc)
    obtain ⟨d, hd, -, hdc⟩ := exists_of_mark hmark
    exact ⟨d, hd, hdc⟩
  · rintro ⟨f, rfl, hstep⟩
    have hreach : ∀ i, Reachable (f 0) (f i) := by
      intro i
      induction i with
      | zero => exact .refl
      | succ i ih =>
        obtain ⟨m, hm⟩ := (hstep i).move
        exact .move m ih hm
    exact not_callRuns_forever (fun i => hlater (hreach i) hclosed) hstep

/-- The user closes a session in which an open and an accept wait, and both take a turn. -/
def closedWaiting : List Move :=
  [.ask .openConn, .run (.call 0) true, .run (.call 0) true, .ask .accept, .run (.call 1) true,
    .run (.call 1) true, .close, .run (.call 0) false, .run (.call 1) false]

/-- Both have failed, and nobody waits. -/
theorem waiting_calls_fail_at_the_end :
    ∃ s, Reachable (start (.build []) .tcp none none 0) s ∧ s.Ended ∧ s.Quiet ∧
      s.calls.map Call.stage = [.over (.failed .sessionClosed), .over (.failed .acceptClosed)] := by
  have hplay : ((start (.build []) .tcp none none 0).playCalm closedWaiting).map
      (fun s => (s.closed, s.ready, s.calls.map Call.stage)) =
        some (true, [.writer, .reader, .acceptor, .pinger, .returns],
          [.over (.failed .sessionClosed), .over (.failed .acceptClosed)]) := by
    decide +kernel
  obtain ⟨s, hs, hend⟩ := Option.map_eq_some_iff.1 hplay
  rw [Prod.mk.injEq, Prod.mk.injEq] at hend
  obtain ⟨hclosed, hready, hcalls⟩ := hend
  have hreach := (undisturbed_of_playCalm .refl hs).reachable
  obtain ⟨-, -, hended, -, -, hquiet⟩ :=
    ((ends_once_and_for_all _ _ _ _ _ hreach).2.2.2 hclosed).1 s .refl
  exact ⟨s, hreach, hended, hquiet fun k => by rw [hready]; simp, hcalls⟩

end Session

end StreamMux
