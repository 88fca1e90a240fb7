import StreamMux.Proofs.Agreement
import StreamMux.Proofs.Counterparts
import StreamMux.Proofs.Drawing
import StreamMux.Proofs.Footprints

/-! The first turn of an open. If an id is drawn for it, it registers a connection under that and queues the
request. As the counter comes round, opens alone lead to a connection under any id that is free, and to two
under one id that a refused open has yet to give up. -/

namespace StreamMux

namespace Session

variable {init s t u : Session} {k n : Nat} {id i : Int32} {c : Call} {ids : IdSource}

/-- The call is at this stage. -/
def Stands (k : Nat) (stage : CallStage) (s : Session) : Prop := ∃ c, s.calls[k]? = some c ∧ c.stage = stage

/-- The open has asked the peer for the connection, and waits for the answer. -/
def Awaits (k n : Nat) (s : Session) : Prop := ∃ due, s.Stands k (.answering n due)

/-! ### The request -/

/-- A session that runs queues every frame. -/
theorem exists_post (hopen : s.closed = false) (houtbox : s.outbox.state.stopped = false) (out : Outgoing) :
    ∃ outbox ready, s.ready ⊆ ready ∧
      s.post out = some { s with outbox, ready, trace := .queued out :: s.trace } := by
  obtain ⟨outbox, woken, hpush⟩ : ∃ outbox woken,
      s.outbox.push (if out.frame.flag.isPriority then .priority else .normal) out = some (outbox, woken) := by
    generalize (if out.frame.flag.isPriority then Lane.priority else Lane.normal) = lane
    cases lane <;> exact ⟨_, _, by rw [Queue.push, Lanes.push, houtbox]; rfl⟩
  refine ⟨outbox, joinLine s.ready woken, fun f hf => mem_joinLine.2 (.inl hf), ?_⟩
  simp only [post, hopen, Bool.false_eq_true, ↓reduceIte]
  rw [hpush]
  rfl

/-- A session that runs takes in a connection under a free id, and queues the request for it. -/
theorem exists_requestUnder (h : s.view.Coherent) (hopen : s.closed = false)
    (hfree : s.registry.contains id = false) (ids : IdSource) (k : Nat) :
    ∃ outbox ready, s.ready ⊆ ready ∧ s.requestUnder (some (id, ids)) k = ({ s with
      ids
      conns := s.conns ++ [.make s.settings id (.awaited k)]
      registry := { s.registry with entries := s.registry.entries ++ [(id, s.conns.length)] }
      outbox
      calls := s.calls.modify k fun c =>
        { c with stage := .answering s.conns.length (s.now + s.settings.openTimeout) }
      timers := s.timers.erase (.call k) ++ [.call k]
      ready
      trace := .queued { frame := .control .newConn id, conn := s.conns.length } ::
        .registered s.conns.length :: s.trace }, true) := by
  have hreg : s.registry.closed = false := h.registry.trans hopen
  have hlookup : s.registry.lookup id = none := by
    simpa [Registry.contains, Registry.get?, hreg] using hfree
  have hinsert : s.registry.insertNew id s.conns.length =
      some { s.registry with entries := s.registry.entries ++ [(id, s.conns.length)] } := by
    simp [Registry.insertNew, hreg, hlookup]
  let r : Session := { s with
    ids
    conns := s.conns ++ [.make s.settings id (.awaited k)]
    registry := { s.registry with entries := s.registry.entries ++ [(id, s.conns.length)] }
    trace := .registered s.conns.length :: s.trace }
  obtain ⟨outbox, ready, hready, hpost⟩ := exists_post (s := r) hopen (h.outbox.trans hopen)
    { frame := .control .newConn id, conn := s.conns.length }
  refine ⟨outbox, ready, hready, ?_⟩
  simp only [requestUnder, addConn, hinsert, note]
  rw [show Session.post _ _ = _ from hpost]
  rfl

theorem takeTurn_of_fresh (hopen : s.closed = false) (hc : s.calls[k]? = some c)
    (hrequest : c.request = .openConn) (hstage : c.stage = .fresh) (hlive : c.cancelled = false) (first : Bool) :
    s.takeTurn (.call k) first =
      ({ s with ready := s.ready.erase (.call k) } : Session).requestUnder (s.ids.draw s.registry.contains) k := by
  simp only [takeTurn, turn, callTurn, hc, Call.isOver, hstage, Call.isGivenUp_of_live hlive, beginCall, hrequest,
    hopen, request, Bool.false_eq_true, ↓reduceIte]

/-- The first turn of an open to which an id was drawn. -/
theorem exists_run_of_draw (h : s.view.Coherent) (hopen : s.closed = false) (hc : s.calls[k]? = some c)
    (hrequest : c.request = .openConn) (hstage : c.stage = .fresh) (hlive : c.cancelled = false) {ids : IdSource}
    (hdraw : s.ids.draw s.registry.contains = some (id, ids)) (first : Bool) :
    ∃ outbox ready, s.ready ⊆ ready ∧ s.run (.call k) first = { s with
      ids
      conns := s.conns ++ [.make s.settings id (.awaited k)]
      registry := { s.registry with entries := s.registry.entries ++ [(id, s.conns.length)] }
      outbox
      calls := s.calls.modify k fun c =>
        { c with stage := .answering s.conns.length (s.now + s.settings.openTimeout) }
      timers := s.timers.erase (.call k) ++ [.call k]
      ready
      trace := .queued { frame := .control .newConn id, conn := s.conns.length } ::
        .registered s.conns.length :: s.trace } := by
  obtain ⟨outbox, ready, hready, hasked⟩ := exists_requestUnder
    (s := { s with ready := s.ready.erase (.call k) }) h hopen (IdSource.pos_and_free_of_draw hdraw).2 ids k
  refine ⟨outbox, .call k :: ready, fun f hf => ?_, ?_⟩
  · by_cases hk : f = .call k
    · exact List.mem_cons.2 (.inl hk)
    · exact List.mem_cons_of_mem _ (hready ((List.mem_erase_of_ne hk).2 hf))
  · rw [run, takeTurn_of_fresh hopen hc hrequest hstage hlive, hdraw, hasked]
    rfl

/-! ### Any free id -/

/-- From `s` to `t` connections and calls were added, and nobody who was ready went to sleep. -/
structure Extends (s t : Session) : Prop where
  conns : s.conns <+: t.conns
  calls : ∀ (j : Nat) (c : Call), s.calls[j]? = some c → t.calls[j]? = some c
  entered : ∀ i, s.registry.contains i = true → t.registry.contains i = true
  ready : s.ready ⊆ t.ready
  handle : t.handle = s.handle
  closed : t.closed = s.closed

theorem Extends.trans (h : s.Extends t) (h' : t.Extends u) : s.Extends u where
  conns := h.conns.trans h'.conns
  calls j c hc := h'.calls j c (h.calls j c hc)
  entered i hi := h'.entered i (h.entered i hi)
  ready := List.Subset.trans h.ready h'.ready
  handle := h'.handle.trans h.handle
  closed := h'.closed.trans h.closed

/-- An entry under another id leaves an id in use or free. -/
theorem contains_append_of_ne {r : Registry Nat} (h : i ≠ id) :
    Registry.contains { r with entries := r.entries ++ [(id, n)] } i = r.contains i := by
  simp only [Registry.contains, Registry.get?]
  rw [View.lookup_append_of_ne rfl h]

/-- One more open gets the id that is drawn next. -/
theorem exists_next (h : Reachable init s) (hco : s.view.Coherent) (hopen : s.closed = false)
    (hhandle : s.handle = true) (hdraw : s.ids.draw s.registry.contains = some (id, ids)) :
    ∃ t, Reachable init t ∧ s.Extends t ∧ t.ids = ids ∧
      t.registry = { s.registry with entries := s.registry.entries ++ [(id, s.conns.length)] } ∧
      t.conns[s.conns.length]? = some (.make s.settings id (.awaited s.calls.length)) ∧
      t.Awaits s.calls.length s.conns.length := by
  let r : Session := ({ s with calls := s.calls ++ [({ request := .openConn } : Call)] }).wake [.call s.calls.length]
  have hask : s.move? (.ask .openConn) = some r := by simp [move?, ask, mayAsk, hhandle, r]
  have hco' : r.view.Coherent := ⟨hco.registry, hco.outbox, hco.staged, hco.no_entries, hco.no_frames, hco.no_staged,
    hco.staged_lt, hco.publishing_lt⟩
  have hc : r.calls[s.calls.length]? = some { request := .openConn } := by simp [r, wake]
  obtain ⟨outbox, ready, hready, hrun⟩ := exists_run_of_draw (s := r) hco' hopen hc rfl rfl rfl hdraw true
  have hin : Fiber.call s.calls.length ∈ r.ready := mem_joinLine.2 (.inr (by simp))
  refine ⟨_, (h.move _ hask).move (.run (.call s.calls.length) true) (by rw [move?, if_pos hin]), ?_⟩
  rw [hrun]
  refine ⟨⟨List.prefix_append .., fun j c hj => ?_, fun i hi => ?_, fun f hf => hready (mem_joinLine.2 (.inl hf)),
    rfl, rfl⟩, rfl, rfl, by simp [r, wake], s.now + s.settings.openTimeout, _, by simp [r, wake]; rfl, rfl⟩
  · have hlt := (List.getElem?_eq_some_iff.1 hj).1
    simp only [r, wake]
    rw [List.getElem?_modify_ne _ _ (by omega), List.getElem?_append_left hlt, hj]
  · have hne : i ≠ id := fun he => by
      rw [he, (IdSource.pos_and_free_of_draw hdraw).2] at hi
      cases hi
    exact (contains_append_of_ne hne).trans hi

/-- Opens alone lead to a connection under a free id. -/
theorem exists_opened (hco : init.view.Coherent) (h : Reachable init s) (hopen : s.closed = false)
    (hhandle : s.handle = true) (hpos : 0 < i) (hle : i ≤ IdSource.limit) (hfree : s.registry.contains i = false) :
    ∃ t k n d, Reachable init t ∧ s.Extends t ∧ t.registry.contains i = true ∧ s.conns.length ≤ n ∧
      t.Awaits k n ∧ t.conns[n]? = some d ∧ d.id = i ∧ d.closed = false := by
  -- Every draw brings the counter nearer to the id, or takes that.
  induction hahead : s.ids.ahead i using Nat.strongRecOn generalizing s with
  | ind count ih =>
    obtain ⟨id, hdraw, hor⟩ := IdSource.exists_draw hpos hle hfree s.ids
    have hcos := (h.steps hco).coherent hco
    obtain ⟨t, ht, hext, hids, hreg, hconn, hawaits⟩ := exists_next h hcos hopen hhandle hdraw
    by_cases hid : id = i
    · have hin : t.registry.contains i = true := by
        have hreg' : s.registry.closed = false := hcos.registry.trans hopen
        have hlookup : s.registry.lookup i = none := by simpa [Registry.contains, Registry.get?, hreg'] using hfree
        simp only [Registry.contains, Registry.get?, hreg, hreg', Bool.false_eq_true, ↓reduceIte]
        rw [View.lookup_append_of_free (by rw [hid]) hlookup]
        rfl
      exact ⟨t, _, _, _, ht, hext, hin, Nat.le_refl _, hawaits, hconn, hid, rfl⟩
    · have hlt := hor.resolve_left hid
      have hfree' : t.registry.contains i = false := by
        rw [hreg]
        exact (contains_append_of_ne (Ne.symm hid)).trans hfree
      obtain ⟨u, k, n, d, hu, hext', hin, hn, hrest⟩ := ih _ (hahead ▸ hids ▸ hlt) ht (hext.closed.trans hopen)
        (hext.handle.trans hhandle) hfree' rfl
      exact ⟨u, k, n, d, hu, hext.trans hext', hin, Nat.le_trans hext.conns.length_le hn, hrest⟩

/-- Opens alone lead to a session in which the ids up to any bound are in use. -/
theorem exists_full (hco : init.view.Coherent) (h : Reachable init s) (hopen : s.closed = false)
    (hhandle : s.handle = true) (count : Nat) (hcount : count ≤ 2147473648) :
    ∃ t, Reachable init t ∧ s.Extends t ∧ ∀ i : Int32, 0 < i → i.toInt ≤ count → t.registry.contains i = true := by
  induction count with
  | zero =>
    refine ⟨s, h, ⟨List.prefix_rfl, fun _ _ hc => hc, fun _ hi => hi, fun _ hf => hf, rfl, rfl⟩, fun i hpos hle => ?_⟩
    rw [Int32.lt_iff_toInt_lt, Int32.toInt_zero] at hpos
    omega
  | succ count ih =>
    obtain ⟨t, ht, hext, hfull⟩ := ih (by omega)
    have hnext {i : Int32} (hi : i.toInt ≤ (count + 1 : Nat)) (hne : i.toInt ≠ (count + 1 : Nat)) :
        i.toInt ≤ count := by omega
    by_cases hin : ∀ i : Int32, i.toInt = (count + 1 : Nat) → t.registry.contains i = true
    · refine ⟨t, ht, hext, fun i hpos hi => ?_⟩
      by_cases he : i.toInt = (count + 1 : Nat)
      · exact hin i he
      · exact hfull i hpos (hnext hi he)
    · push Not at hin
      obtain ⟨i, hi, hfree⟩ := hin
      obtain ⟨u, -, -, -, hu, hext', hentered, -⟩ := exists_opened hco ht (hext.closed.trans hopen)
        (hext.handle.trans hhandle) (i := i) (by rw [Int32.lt_iff_toInt_lt, Int32.toInt_zero]; omega)
        (by rw [Int32.le_iff_toInt_le, IdSource.toInt_limit]; omega) (by simpa using hfree)
      refine ⟨u, hu, hext.trans hext', fun j hpos hj => ?_⟩
      by_cases he : j.toInt = (count + 1 : Nat)
      · rw [Int32.toInt_inj.1 (he.trans hi.symm)]
        exact hentered
      · exact hext'.entered j (hfull j hpos (hnext hj he))

/-- Once all ids of the round are in use, an open that begins makes no connection. -/
theorem exists_unserved (hco : init.view.Coherent) (h : Reachable init s) (hopen : s.closed = false)
    (hhandle : s.handle = true) : ∃ t u k c, Reachable init t ∧ t.closed = false ∧ t.calls[k]? = some c ∧
      c.request = .openConn ∧ c.stage = .fresh ∧ c.cancelled = false ∧ t.move? (.run (.call k) true) = some u ∧
      u.registry = t.registry ∧ u.conns = t.conns := by
  obtain ⟨t, ht, hext, hfull⟩ := exists_full hco h hopen hhandle 2147473648 (Nat.le_refl _)
  let r : Session := ({ t with calls := t.calls ++ [({ request := .openConn } : Call)] }).wake [.call t.calls.length]
  have hask : t.move? (.ask .openConn) = some r := by
    simp [move?, ask, mayAsk, hext.handle.trans hhandle, r]
  have hc : r.calls[t.calls.length]? = some { request := .openConn } := by simp [r, wake]
  have hdraw : r.ids.draw r.registry.contains = none := by
    cases hdraw : r.ids.draw r.registry.contains with
    | none => rfl
    | some drawn =>
      obtain ⟨id, ids⟩ := drawn
      obtain ⟨hpos, hfree⟩ := IdSource.pos_and_free_of_draw hdraw
      have hle := IdSource.le_limit_of_draw hdraw
      rw [Int32.le_iff_toInt_le, IdSource.toInt_limit] at hle
      exact absurd (hfull id hpos hle) (by simpa [r, wake] using hfree)
  have hin : Fiber.call t.calls.length ∈ r.ready := mem_joinLine.2 (.inr (by simp))
  refine ⟨r, _, _, _, ht.move _ hask, hext.closed.trans hopen, hc, rfl, rfl, rfl, by rw [move?, if_pos hin], ?_⟩
  rw [run, takeTurn_of_fresh (s := r) (hext.closed.trans hopen) hc rfl rfl rfl, hdraw]
  exact ⟨rfl, rfl⟩

/-- The turn of a refused open frees the id of its connection, whoever has that by now. -/
theorem exists_run_of_refused (hhandle : s.handle = true) (hopen : s.closed = false) {due : Moment}
    (hc : s.calls[k]? = some c) (hstage : c.stage = .answering n due) (hlive : c.cancelled = false) {d : Conn}
    (hd : s.conns[n]? = some d) (hgiven : d.reply = .given false) (first : Bool) :
    ∃ ready, s.run (.call k) first = { s with
      registry := (s.registry.delete d.id).1
      conns := s.conns.set n d.shutdown.1
      calls := s.calls.modify k fun c => { c with stage := .over (.failed .connectionRefused) }
      ready
      trace := .finished k (.failed .connectionRefused) :: s.trace } := by
  obtain ⟨ready, hrun⟩ := exists_run (.call k) first s
  refine ⟨ready, ?_⟩
  rw [hrun, takeTurn_of_refused hc hstage hlive (by simp [hopen]) hd hgiven]
  simp only [refuse, hd, shutConn, changeConn, finish, reap, setStage, note, wake, hhandle, true_or, ↓reduceIte]

/-- While a refused open has yet to look and its id is free, another open gets the id, loses it to that look,
and yet another one gets it as well. -/
theorem exists_shared_id (hco : init.view.Coherent) (h : Reachable init s) (hopen : s.closed = false)
    (hhandle : s.handle = true) (hready : .call k ∈ s.ready) {due : Moment} (hc : s.calls[k]? = some c)
    (hstage : c.stage = .answering n due) (hlive : c.cancelled = false) {d : Conn} (hd : s.conns[n]? = some d)
    (hgiven : d.reply = .given false) (hpos : 0 < d.id) (hle : d.id ≤ IdSource.limit)
    (hfree : s.registry.contains d.id = false) :
    ∃ t i j m l e f, Reachable init t ∧ t.closed = false ∧ t.Awaits i m ∧ t.Awaits j l ∧ t.conns[m]? = some e ∧
      t.conns[l]? = some f ∧ e.closed = false ∧ f.closed = false ∧ e.id = f.id ∧ i ≠ j := by
  obtain ⟨t, i, m, e, ht, hext, -, hm, ⟨due', c', hc', hwaits⟩, he, heid, heopen⟩ :=
    exists_opened hco h hopen hhandle hpos hle hfree
  have hclosed : t.closed = false := hext.closed.trans hopen
  have hhandle' : t.handle = true := hext.handle.trans hhandle
  obtain ⟨ready, hrun⟩ := exists_run_of_refused hhandle' hclosed (hext.calls k c hc) hstage hlive
    (getElem?_grow hext.conns hd) hgiven true
  have hu := ht.move (.run (.call k) true) (by rw [move?, if_pos (hext.ready hready)])
  rw [hrun] at hu
  obtain ⟨u, j, l, f, hu', hext', -, hl, ⟨due'', c'', hc'', hwaits'⟩, hf, hfid, hfopen⟩ :=
    exists_opened hco hu hclosed hhandle' hpos hle (by simp [Registry.contains, Registry.get?, Registry.lookup_delete])
  have hnm : n ≠ m := fun hnm => absurd (List.getElem?_eq_some_iff.1 hd).1 (by omega)
  have hki : k ≠ i := fun hki => by
    rw [← hki, hext.calls k c hc] at hc'
    cases hc'
    rw [hstage] at hwaits
    cases hwaits
    exact hnm rfl
  have hci : u.calls[i]? = some c' := hext'.calls i c' (by simp [hki, hc'])
  have hem : u.conns[m]? = some e := getElem?_grow hext'.conns (by simp [hnm, he])
  refine ⟨u, i, j, m, l, e, f, hu', hext'.closed.trans hclosed, ⟨due', c', hci, hwaits⟩, ⟨due'', c'', hc'', hwaits'⟩,
    hem, hf, heopen, hfopen, heid.trans hfid.symm, fun hij => ?_⟩
  rw [← hij, hci] at hc''
  cases hc''
  rw [hwaits] at hwaits'
  cases hwaits'
  rw [List.length_set] at hl
  exact absurd (List.getElem?_eq_some_iff.1 he).1 (by omega)

end Session

end StreamMux
