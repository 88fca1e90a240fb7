import StreamMux.Proofs.Seating

/-! The acts of a session. As long as no window is overrun before the peer has accepted its connection,
each step of a view is an act of its seat, with the word that it says and the word that it hears. -/

namespace StreamMux

namespace View

variable {v w : View} {id : Int32} {n : Nat}

/-! ### Seats after a change -/

section Seats

theorem roles_shutAll (conns : List Nat) (v : View) : (v.shutAll conns).roles = v.roles := by
  apply List.ext_getElem?
  intro n
  simp only [roles, List.getElem?_map, shutAll_getElem?, Option.map_map]
  congr 1
  funext f
  by_cases hn : n ∈ conns <;> simp [hn, Face.shut, Face.close, Face.stop]

/-- The seat at the end of the session. -/
theorem seat_close (v : View) :
    v.close.seat id = { v.seat id with live := false, holder := none, staged := [] } := by
  have hroles : v.close.roles = v.roles := roles_shutAll _ v
  simp only [seat, standing_congr hroles]
  rfl

theorem standing_setFace {f g : Face} (hf : v.faces[n]? = some f) (hid : g.id = f.id) :
    (v.setFace n g).standing id =
      if f.id = id then Function.update (v.standing id) n (some g.reply.standing) else v.standing id := by
  have hlt := (List.getElem?_eq_some_iff.1 hf).1
  funext m
  by_cases hm : n = m
  · subst hm
    have hg : (v.setFace n g).faces[n]? = some g := by simp [setFace, hlt]
    rw [standing_of_face hg, hid]
    split
    · rw [Function.update_self]
    · rename_i hne
      rw [standing_of_face hf, if_neg hne]
  · have hsame : (v.setFace n g).standing id m = v.standing id m := by
      simp [standing, roles, setFace, hm]
    rw [hsame]
    split
    · rw [Function.update_of_ne (Ne.symm hm)]
    · rfl

/-- The queues at the making of a connection, which may be staged. -/
theorem seat_append (hco : v.Coherent) {role : Int32 × Standing} {more : List Nat}
    (hr : w.roles = v.roles ++ [role]) (hc : w.closed = v.closed)
    (hs : w.staged.toList = v.staged.toList ++ more) (ha : w.acceptor = v.acceptor) :
    w.seat id = { v.seat id with
      holder := w.registry.lookup id
      staged := (v.seat id).staged ++ more.filter fun n => (w.standing id n).isSome
      standing := w.standing id } := by
  refine Seat.ext (congrArg (!·) hc) rfl ?_ ?_ rfl
  · show (w.staged.toList.filter fun n => (w.standing id n).isSome) = _
    rw [hs, List.filter_append]
    congr 1
    exact List.filter_congr fun n hn => by rw [standing_of_lt hr (hco.staged_lt n hn)]
  · show w.acceptor.publishing?.filter (fun n => (w.standing id n).isSome) =
      v.acceptor.publishing?.filter fun n => (v.standing id n).isSome
    rw [ha]
    cases hp : v.acceptor with
    | publishing n =>
      simp only [AcceptorStage.publishing?, Option.filter, standing_of_lt hr (hco.publishing_lt n hp)]
    | _ => rfl

/-- The seat of a new connection. -/
theorem seat_append_same (hco : v.Coherent) {st : Standing} {more : List Nat}
    (hr : w.roles = v.roles ++ [(id, st)]) (hc : w.closed = v.closed)
    (hs : w.staged.toList = v.staged.toList ++ more) (hmore : ∀ n ∈ more, n = v.faces.length)
    (ha : w.acceptor = v.acceptor) : w.seat id = { v.seat id with
      holder := w.registry.lookup id
      staged := (v.seat id).staged ++ more
      standing := Function.update (v.standing id) v.faces.length (some st) } := by
  have hstanding : w.standing id = _ := standing_append hr
  rw [if_pos rfl] at hstanding
  rw [seat_append hco hr hc hs ha, List.filter_eq_self.2 fun n hn => ?_, hstanding]
  rw [hstanding, hmore n hn, Function.update_self]
  rfl

/-- A new connection with another id. -/
theorem seat_append_other (hco : v.Coherent) {i : Int32} {st : Standing} {more : List Nat}
    (hr : w.roles = v.roles ++ [(i, st)]) (hi : i ≠ id) (hc : w.closed = v.closed)
    (hs : w.staged.toList = v.staged.toList ++ more) (hmore : ∀ n ∈ more, n = v.faces.length)
    (ha : w.acceptor = v.acceptor) : w.seat id = { v.seat id with holder := w.registry.lookup id } := by
  have hstanding : w.standing id = _ := standing_append hr
  rw [if_neg hi] at hstanding
  rw [seat_append hco hr hc hs ha, List.filter_eq_nil_iff.2 fun n hn => ?_, hstanding, List.append_nil]
  · rfl
  · rw [hstanding, hmore n hn, standing_length]
    simp

end Seats

/-! ### Acts -/

section Acts

variable {tied : Nat → Nat → Prop} {peer : Option Outgoing} {settings : Settings}

/-- Nothing is said, and nothing changes. -/
theorem act_quiet {heard : Option Saying} (hseat : w.seat id = v.seat id) :
    Act tied (v.seat id) (w.seat id) none heard := by
  rw [hseat]
  cases heard with
  | none => exact .idle
  | some x => exact .miss

/-- A connection that the user has, or that came in, may be used while it is open. -/
theorem Placed.settled (hp : v.Placed id) (running : v.closed = false) {f : Face}
    (hf : v.faces[n]? = some f) (hid : f.id = id) (hopen : f.closed = false)
    (hstaged : n ∉ v.staged.toList) (hset : f.reply.isSettled = true) : (v.seat id).Settled n := by
  have hmark := marks_getElem? hf
  rw [hid, hopen] at hmark
  refine ⟨by simp [seat, running], hp.agrees n hmark hstaged, f.reply.standing, ?_, ?_⟩
  · show v.standing id n = _
    rw [standing_of_face hf, if_pos hid]
  · rwa [Reply.settled_standing]

theorem Placed.settled_of_owns (h : v.Sound settings) (hp : v.Placed id) (running : v.closed = false)
    {f : Face} (hf : v.faces[n]? = some f) (hid : f.id = id) (hopen : f.closed = false)
    (howns : v.Owns n) : (v.seat id).Settled n := by
  obtain ⟨g, hg, hset⟩ := h.vouched.held n (.inl howns)
  rw [hf] at hg
  cases hg
  exact hp.settled running hf hid hopen (not_staged_of_owns h.filed howns) hset

/-- A connection is closed, in a view with the seat and the queue of `v`. -/
theorem acts_closeConn {x : View} {f : Face} {heard : Option Saying} (hco : x.Coherent)
    (running : x.closed = false) (hseat : x.seat id = v.seat id) (hs : x.started = v.started)
    (ho : x.outbox = v.outbox) (hf : x.faces[n]? = some f) (hopen : f.closed = false)
    (hsettled : f.id = id → (v.seat id).Settled n) (hheard : heard = none ∨ ∃ m, heard = some (.talk, m)) :
    ∃ said, Spoken id v (x.closeConn n) said ∧
      Act tied (v.seat id) ((x.closeConn n).seat id) said heard := by
  have hw := closeConn_of_open hf hopen
  have hroles : (x.closeConn n).roles = x.roles := by
    rw [hw]
    exact roles_setFace hf rfl rfl
  have hlookup : (x.closeConn n).registry.lookup id = if id = f.id then none else x.registry.lookup id := by
    rw [hw]
    exact Registry.lookup_delete ..
  have hseat' : (x.closeConn n).seat id =
      { v.seat id with holder := if id = f.id then none else x.registry.lookup id } := by
    rw [← hseat, ← hlookup]
    exact seat_holder (closeConn_closed ..) (by rw [closeConn_staged]) (closeConn_acceptor ..) hroles
  have hspoken : Spoken id v (x.closeConn n) (if f.closing then none else
      Outgoing.saying? id { frame := .control .connClose f.id, conn := n }) := by
    rw [hw]
    cases hcg : f.closing
    · have hsay : x.sayClosed n f = x.post { frame := .control .connClose f.id, conn := n } := by
        simp [sayClosed, hcg]
      rw [if_neg (by decide)]
      exact spoken_post hco running hs ho (by rw [hsay]; rfl) (by rw [hsay])
    · have hsay : x.sayClosed n f = x := by simp [sayClosed, hcg]
      refine spoken_same ?_ ?_
      · rw [hsay]
        exact hs
      · rw [hsay]
        exact ho
  refine ⟨_, hspoken, ?_⟩
  rw [hseat']
  by_cases hid : f.id = id
  · rw [if_pos hid.symm, Outgoing.saying?_of_word hid rfl rfl]
    refine .leave (hsettled hid) ?_ hheard
    split
    · exact .inl rfl
    · exact .inr rfl
  · have hsame : ({ v.seat id with holder := x.registry.lookup id } : Seat) = v.seat id := by
      rw [← hseat]
      rfl
    rw [if_neg (Ne.symm hid), Outgoing.saying?_of_ne hid, ite_self, hsame]
    exact act_quiet rfl

/-- The open connection that a frame is routed to. -/
theorem addressee_spec (h : v.Sound settings) {i : Int32} (hto : v.addressee i = some n) {f : Face}
    (hf : v.faces[n]? = some f) : v.closed = false ∧ f.id = i ∧ f.closed = false ∧
      v.registry.lookup i = some n ∧ n ∉ v.staged.toList := by
  obtain ⟨g, hg, hopen, hlook⟩ := exists_of_addressee hto
  rw [hf] at hg
  cases hg
  have hentry := Registry.mem_of_lookup hlook
  have hmark := h.filed.entry _ _ hentry
  rw [marks_getElem? hf] at hmark
  refine ⟨?_, (Prod.mk.inj (Option.some.inj hmark)).1, hopen, hlook, h.filed.staged_apart _ _ hentry⟩
  cases hc : v.closed
  · rfl
  · rw [h.coherent.no_entries hc] at hentry
    cases hentry

/-- From one view to the other the seat acts, and what it says is under way. -/
def Acts (tied : Nat → Nat → Prop) (id : Int32) (v w : View) (heard : Option Saying) : Prop :=
  ∃ said, Spoken id v w said ∧ Act tied (v.seat id) (w.seat id) said heard

theorem acts_quiet {heard : Option Saying} (hs : w.started = v.started) (ho : w.outbox = v.outbox)
    (hseat : w.seat id = v.seat id) : Acts tied id v w heard :=
  ⟨none, spoken_same hs ho, act_quiet hseat⟩

/-- A connection is made, registered and asked for. -/
theorem acts_request (hco : v.Coherent) (running : v.closed = false) {new : Int32} {out : Outgoing}
    (free : v.registry.lookup new = none) (hspoken : Spoken id v w (out.saying? id))
    (hid : out.frame.id = new) (hword : out.frame.flag.word? = some .ask)
    (hconn : out.conn = some v.faces.length) (hr : w.roles = v.roles ++ [(new, .asking)])
    (he : w.registry.entries = v.registry.entries ++ [(new, v.faces.length)])
    (hc : w.closed = v.closed) (hs : w.staged = v.staged) (ha : w.acceptor = v.acceptor) :
    Acts tied id v w none := by
  have hs : w.staged.toList = v.staged.toList ++ [] := by rw [hs, List.append_nil]
  refine ⟨_, hspoken, ?_⟩
  by_cases hnew : new = id
  · subst hnew
    rw [seat_append_same hco hr hc hs nofun ha, Outgoing.saying?_of_word hid hword hconn,
      lookup_append_of_free he free, List.append_nil]
    exact .ask (by simp [seat, running]) free (standing_length v)
  · rw [seat_append_other hco hr hnew hc hs nofun ha, Outgoing.saying?_of_ne (hid ▸ hnew),
      lookup_append_of_ne he (Ne.symm hnew)]
    exact .idle

/-- A refused connection is given up. -/
theorem acts_refuse (h : v.Sound settings) (hp : v.Placed id) {call : Nat} {r : Request} {d : Moment}
    {f : Face} (asked : v.calls[call]? = some (r, .answering n d)) (hf : v.faces[n]? = some f)
    (given : f.reply = .given false) (hs : w.started = v.started) (ho : w.outbox = v.outbox)
    (hr : w.roles = v.roles) (he : w.registry = (v.registry.delete f.id).1) (hc : w.closed = v.closed)
    (hst : w.staged = v.staged) (ha : w.acceptor = v.acceptor) : Acts tied id v w none := by
  refine ⟨none, spoken_same hs ho, ?_⟩
  rw [seat_holder hc (congrArg Lanes.toList hst) ha hr, he, Registry.lookup_delete]
  have hstanding : (v.seat id).standing n = if f.id = id then some f.reply.standing else none :=
    standing_of_face hf
  split
  · rename_i hid
    subst hid
    cases hrun : v.closed
    · have hopen := hp.waiting hrun call n r d f asked hf rfl (by rw [given]; rfl)
      have hmark := marks_getElem? hf
      rw [hopen] at hmark
      refine .giveUp (by simp [seat, hrun]) (hp.agrees n hmark ?_) (by rw [hstanding, if_pos rfl, given]; rfl)
      exact h.filed.handed_apart n (.inr (.inr (.inr ⟨_, List.mem_of_getElem? asked, d, rfl⟩)))
    · have hnone : v.registry.lookup f.id = none := by
        rw [Registry.lookup, h.coherent.no_entries hrun]
        rfl
      rw [← hnone]
      exact .idle
  · exact .idle

/-- A connection is made for the peer, and staged. -/
theorem acts_stage (hco : v.Coherent) {frame : Frame} (hflag : frame.flag = .newConn)
    (ht : Took tied v w peer) (hd : w.dispatched = v.dispatched ++ [frame]) (hs : w.started = v.started)
    (ho : w.outbox = v.outbox) (hr : w.roles = v.roles ++ [(frame.id, .unasked)])
    (he : w.registry = v.registry) (hc : w.closed = v.closed)
    (hst : w.staged.toList = v.staged.toList ++ [v.faces.length]) (ha : w.acceptor = v.acceptor) :
    Acts tied id v w (peer.bind fun out => out.saying? id) := by
  obtain ⟨out, rfl, rfl, hconn, htie⟩ := ht.heard hd
  obtain ⟨m, hm⟩ := hconn (by rw [hflag]; rfl)
  refine ⟨none, spoken_same hs ho, ?_⟩
  have hmore (n : Nat) (hn : n ∈ [v.faces.length]) : n = v.faces.length := List.mem_singleton.1 hn
  rw [Option.bind_some]
  by_cases hid : out.frame.id = id
  · subst hid
    rw [seat_append_same hco hr hc hst hmore ha, he, Outgoing.saying?_of_word rfl (by rw [hflag]; rfl) hm]
    exact .stage (standing_length v) (htie hflag m hm)
  · rw [seat_append_other hco hr hid hc hst hmore ha, he, Outgoing.saying?_of_ne hid]
    exact .idle

/-- A connection is made for the peer too late, and staged no more. -/
theorem acts_stageLate (hco : v.Coherent) {frame : Frame} (hflag : frame.flag = .newConn)
    (ht : Took tied v w peer) (hd : w.dispatched = v.dispatched ++ [frame]) (hs : w.started = v.started)
    (ho : w.outbox = v.outbox) (hr : w.roles = v.roles ++ [(frame.id, .unasked)])
    (he : w.registry = v.registry) (hc : w.closed = v.closed) (hst : w.staged = v.staged)
    (ha : w.acceptor = v.acceptor) : Acts tied id v w (peer.bind fun out => out.saying? id) := by
  obtain ⟨out, rfl, rfl, hconn, -⟩ := ht.heard hd
  obtain ⟨m, hm⟩ := hconn (by rw [hflag]; rfl)
  have hst : w.staged.toList = v.staged.toList ++ [] := by rw [hst, List.append_nil]
  refine ⟨none, spoken_same hs ho, ?_⟩
  rw [Option.bind_some]
  by_cases hid : out.frame.id = id
  · subst hid
    rw [seat_append_same hco hr hc hst nofun ha, he, Outgoing.saying?_of_word rfl (by rw [hflag]; rfl) hm,
      List.append_nil]
    exact .late (standing_length v)
  · rw [seat_append_other hco hr hid hc hst nofun ha, he, Outgoing.saying?_of_ne hid]
    exact .idle

/-- An answer comes in. -/
theorem acts_answer (h : v.Sound settings) (hp : v.Placed id) {frame : Frame} {accepted : Bool} {f : Face}
    (hflag : frame.flag = if accepted then .newConnOk else .newConnFail)
    (hto : v.addressee frame.id = some n) (hf : v.faces[n]? = some f) (ht : Took tied v w peer)
    (hd : w.dispatched = v.dispatched ++ [frame]) (hs : w.started = v.started) (ho : w.outbox = v.outbox)
    (hr : w.roles = (v.setFace n { f with reply := f.reply.answer accepted }).roles)
    (he : w.registry = v.registry) (hc : w.closed = v.closed) (hst : w.staged = v.staged)
    (ha : w.acceptor = v.acceptor) : Acts tied id v w (peer.bind fun out => out.saying? id) := by
  obtain ⟨out, rfl, rfl, hconn, -⟩ := ht.heard hd
  obtain ⟨m, hm⟩ := hconn (by rw [hflag]; cases accepted <;> rfl)
  obtain ⟨running, hfid, hopen, hlook, -⟩ := addressee_spec h hto hf
  have hreply : f.reply ≠ .lost := fun hlost => by
    rw [hp.lost f (List.mem_of_getElem? hf) hlost] at hopen
    cases hopen
  have hstanding : w.standing id = if f.id = id then
      Function.update (v.standing id) n ((v.standing id n).map (Standing.answer accepted))
      else v.standing id := by
    have hset : (v.setFace n { f with reply := f.reply.answer accepted }).standing id = _ :=
      standing_setFace hf rfl
    rw [standing_congr hr, hset]
    split
    · rename_i hid
      rw [standing_of_face hf, if_pos hid, Option.map_some, ← Reply.standing_answer accepted hreply]
    · rfl
  have hsome (k : Nat) : (w.standing id k).isSome = (v.standing id k).isSome := by
    rw [hstanding]
    split
    · by_cases hk : k = n
      · subst hk
        rw [Function.update_self, Option.isSome_map]
      · rw [Function.update_of_ne hk]
    · rfl
  have hseat : w.seat id = { v.seat id with standing := w.standing id } := by
    simp only [seat, hc, he, hst, ha, hsome]
  refine ⟨none, spoken_same hs ho, ?_⟩
  rw [hseat, Option.bind_some, hstanding]
  by_cases hid : out.frame.id = id
  · subst hid
    have hword : out.frame.flag.word? = some (if accepted then .yes else .no) := by
      rw [hflag]
      cases accepted <;> rfl
    rw [if_pos hfid, Outgoing.saying?_of_word rfl hword hm]
    exact .answer (by simp [seat, running]) hlook
  · rw [if_neg (hfid ▸ hid), Outgoing.saying?_of_ne hid]
    exact .idle

/-- The acceptor registers a staged connection. -/
theorem acts_register {lanes : Lanes Nat} {registry : Registry Nat} {f : Face}
    (running : v.closed = false) (ht : v.staged.take = (lanes, some n)) (hf : v.faces[n]? = some f)
    (hreg : v.registry.insertNew f.id n = some registry) :
    Acts tied id v { v with staged := lanes, registry, acceptor := .publishing n } none := by
  refine ⟨none, spoken_same rfl rfl, ?_⟩
  have hstanding : v.standing id n = if f.id = id then some f.reply.standing else none :=
    standing_of_face hf
  have hlookup := Registry.lookup_insertNew hreg id
  have hstaged : (v.seat id).staged = (n :: lanes.toList).filter fun n => (v.standing id n).isSome := by
    rw [← Lanes.toList_of_take ht]
    rfl
  have hseat : seat id { v with staged := lanes, registry, acceptor := .publishing n } =
      { v.seat id with
        holder := registry.lookup id
        staged := lanes.toList.filter fun n => (v.standing id n).isSome
        publishing := (some n).filter fun n => (v.standing id n).isSome } := rfl
  rw [hseat, hlookup]
  by_cases hid : f.id = id
  · subst hid
    rw [if_pos rfl] at hstanding
    rw [List.filter_cons_of_pos (by simp [hstanding])] at hstaged
    rw [if_pos rfl, Option.filter_some_pos (by simp [hstanding])]
    have hfree : v.registry.lookup f.id = none := by
      unfold Registry.insertNew at hreg
      split at hreg
      · cases hreg
      · rename_i hfree
        simpa using (not_or.1 hfree).2
    exact .register (by simp [seat, running]) hstaged hfree
  · rw [if_neg hid] at hstanding
    rw [List.filter_cons_of_neg (by simp [hstanding])] at hstaged
    rw [if_neg (Ne.symm hid), ← hstaged, Option.filter_some_neg (by simp [hstanding])]
    exact .withhold

/-- The acceptor refuses a staged connection. -/
theorem acts_turnAway {lanes : Lanes Nat} {out : Outgoing} {f : Face}
    (ht : v.staged.take = (lanes, some n)) (hf : v.faces[n]? = some f)
    (hspoken : Spoken id v w (out.saying? id)) (hid : out.frame.id = f.id)
    (hword : out.frame.flag.word? = some .no) (hconn : out.conn = some n) (hr : w.roles = v.roles)
    (he : w.registry = v.registry) (hc : w.closed = v.closed) (hst : w.staged = lanes)
    (ha : w.acceptor = v.acceptor) : Acts tied id v w none := by
  refine ⟨_, hspoken, ?_⟩
  have hstanding : v.standing id n = if f.id = id then some f.reply.standing else none :=
    standing_of_face hf
  have hstaged : (v.seat id).staged = (n :: lanes.toList).filter fun n => (v.standing id n).isSome := by
    rw [← Lanes.toList_of_take ht]
    rfl
  have hseat : w.seat id =
      { v.seat id with staged := lanes.toList.filter fun n => (v.standing id n).isSome } := by
    simp only [seat, hc, he, hst, ha, standing_congr hr]
  rw [hseat]
  by_cases hfid : f.id = id
  · rw [if_pos hfid] at hstanding
    rw [List.filter_cons_of_pos (by simp [hstanding])] at hstaged
    rw [Outgoing.saying?_of_word (hid.trans hfid) hword hconn]
    exact .turnAway hstaged
  · rw [if_neg hfid] at hstanding
    rw [List.filter_cons_of_neg (by simp [hstanding])] at hstaged
    rw [← hstaged, Outgoing.saying?_of_ne (hid ▸ hfid)]
    exact .idle

/-- The acceptor confirms a registered connection, in a view with the queue of `v`. -/
theorem acts_publish {x : View} {f : Face} (hp : v.acceptor = .publishing n) (hf : v.faces[n]? = some f)
    (hco : x.Coherent) (hs : x.started = v.started) (ho : x.outbox = v.outbox) (hr : x.roles = v.roles)
    (he : x.registry = v.registry) (hc : x.closed = v.closed) (hst : x.staged = v.staged)
    (ha : x.acceptor.publishing? = none) :
    Acts tied id v (x.post { frame := .control .newConnOk f.id, conn := n }) none := by
  have hseat : x.seat id = { v.seat id with publishing := none } := by
    simp only [seat, hc, he, hst, ha, standing_congr hr, Option.filter_none]
  cases hrun : x.closed
  · refine ⟨_, spoken_post hco hrun hs ho rfl rfl, ?_⟩
    rw [seat_congr (post_closed ..) (post_registry ..) (post_staged ..) (post_acceptor ..) (roles_post ..),
      hseat]
    by_cases hid : f.id = id
    · rw [Outgoing.saying?_of_word hid rfl rfl]
      refine .publish ?_
      have hstanding : (v.standing id n).isSome = true := by
        rw [standing_of_face hf, if_pos hid]
        rfl
      simp only [seat, hp, AcceptorStage.publishing?, Option.filter, hstanding, ↓reduceIte]
    · rw [Outgoing.saying?_of_ne hid]
      exact .withhold
  · rw [post_of_closed _ hrun]
    refine ⟨none, spoken_same hs ho, ?_⟩
    rw [hseat]
    exact .withhold

/-- A connection talks. -/
theorem acts_talk {out : Outgoing} (hspoken : Spoken id v w (out.saying? id))
    (hword : out.frame.flag.word? = some .talk) (hconn : out.conn = some n)
    (hseat : w.seat id = v.seat id) (hsettled : out.frame.id = id → (v.seat id).Settled n) :
    Acts tied id v w none := by
  refine ⟨_, hspoken, ?_⟩
  rw [hseat]
  by_cases hid : out.frame.id = id
  · rw [Outgoing.saying?_of_word hid hword hconn]
    exact .talk (hsettled hid)
  · rw [Outgoing.saying?_of_ne hid]
    exact .idle

/-- The session pings its peer, in a view with the seat and the queue of `v`. -/
theorem acts_ping {x : View} {out : Outgoing} {heard : Option Saying} (hco : x.Coherent)
    (hseat : x.seat id = v.seat id) (hs : x.started = v.started) (ho : x.outbox = v.outbox)
    (hword : out.frame.flag.word? = none) : Acts tied id v (x.post out) heard := by
  have hseat' : (x.post out).seat id = v.seat id := by
    rw [← hseat]
    exact seat_congr (post_closed ..) (post_registry ..) (post_staged ..) (post_acceptor ..) (roles_post ..)
  have hnone : out.saying? id = none := by
    unfold Outgoing.saying?
    rw [hword, Option.bind_none, ite_self]
  cases hc : x.closed
  · refine ⟨none, ?_, act_quiet hseat'⟩
    rw [← hnone]
    exact spoken_post hco hc hs ho rfl rfl
  · rw [post_of_closed out hc] at hseat' ⊢
    exact acts_quiet hs ho hseat'

/-- The user closes a connection. -/
theorem acts_leave (h : v.Sound settings) (hp : v.Placed id) (howns : v.Owns n) :
    Acts tied id v (v.closeConn n) none := by
  rcases hf : v.faces[n]? with _ | f
  · have : v.closeConn n = v := by simp only [closeConn, hf]
    rw [this]
    exact acts_quiet rfl rfl rfl
  · cases hopen : f.closed
    · cases hrun : v.closed
      · exact acts_closeConn h.coherent hrun rfl rfl rfl hf hopen
          (fun hid => hp.settled_of_owns h hrun hf hid hopen howns) (.inl rfl)
      · have hsay : v.sayClosed n f = v := by
          unfold sayClosed
          split
          · rfl
          · exact post_of_closed _ hrun
        have hw := closeConn_of_open hf hopen
        rw [hsay] at hw
        have hreg : (v.registry.delete f.id).1 = v.registry := by
          have := h.coherent.no_entries hrun
          cases hr : v.registry
          rw [hr] at this
          subst this
          rfl
        refine acts_quiet (by rw [hw]; rfl) (by rw [hw]) (seat_congr (closeConn_closed ..) ?_
          (closeConn_staged ..) (closeConn_acceptor ..) ?_)
        · rw [hw]
          exact hreg
        · rw [hw]
          exact roles_setFace hf rfl rfl
    · rw [closeConn_of_closed hf hopen]
      exact acts_quiet rfl rfl rfl

/-- Who reports reads on a connection that the peer has accepted. -/
theorem acts_report (h : v.Sound settings) (hp : v.Placed id) {call m : Nat} {want : Want} {stage : CallStage}
    {f : Face} {receive : ReceiveWindow} {credit : UInt32} (asked : v.calls[call]? = some (.read m want, stage))
    (hf : v.faces[m]? = some f) (hclosed : f.closed = false) :
    Acts tied id v ((v.setFace m { f with receive }).post { frame := .sendOk f.id credit, conn := some m }) none := by
  have hroles : (v.setFace m { f with receive }).roles = v.roles := roles_setFace hf rfl rfl
  cases hrun : v.closed
  · refine acts_talk (spoken_post (h.coherent.setFace _ _) hrun rfl rfl rfl rfl) rfl rfl
      (seat_congr (post_closed ..) (post_registry ..) (post_staged ..) (post_acceptor ..)
        ((roles_post ..).trans hroles)) fun hid => ?_
    exact hp.settled_of_owns h hrun hf hid hclosed (owns_of_asked h.asked asked rfl)
  · rw [post_of_closed _ (show (v.setFace m _).closed = true from hrun)]
    exact acts_quiet rfl rfl (seat_congr rfl rfl rfl rfl hroles)

/-- So does who writes, as the window of a closed connection gives no credit. -/
theorem acts_send (h : v.Sound settings) (hp : v.Placed id) {call m want written credit : Nat} {data : Bytes}
    {stage : CallStage} {f : Face} {send : SendWindow} (asked : v.calls[call]? = some (.write m data, stage))
    (hf : v.faces[m]? = some f) (running : v.closed = false)
    (ha : f.send.acquire want = (send, some (some credit))) :
    Acts tied id v (((v.setFace m { f with send }).post
      { frame := .data f.id ((data.drop written).take credit) (written + credit < data.length),
        conn := some m, call := some call }).setStage call (.sending (written + credit))) none := by
  have hroles : (v.setFace m { f with send }).roles = v.roles := roles_setFace hf rfl rfl
  refine acts_talk (spoken_post (h.coherent.setFace _ _) running rfl rfl rfl rfl) ?_ rfl
    (seat_congr (post_closed ..) (post_registry ..) (post_staged ..) (post_acceptor ..)
      ((roles_post ..).trans hroles)) fun hid => ?_
  · dsimp only [Frame.data]
    split <;> rfl
  · refine hp.settled_of_owns h running hf hid ?_ (owns_of_asked h.asked asked rfl)
    obtain ⟨s, hs, rfl⟩ := exists_story hf
    have hclosed := (h.stories m s hs).send_closed
    rw [(SendWindow.acquire_some ha).1] at hclosed
    exact (Bool.or_eq_false_iff.1 hclosed.symm).1

/-- A segment that the window refuses closes the connection. If the peer has not accepted it, it is overrun. -/
theorem acts_overflow (h : v.Sound settings) (hp : v.Placed id) {frame : Frame} {data : Bytes} {part : Bool}
    {m : Nat} {f : Face} (hseg : IsSegment frame data part) (hto : v.addressee frame.id = some m)
    (hf : v.faces[m]? = some f)
    (hroom : ¬ (((v.note (.dispatched frame)).note (.routed m frame)).closeConn m).Overrun id)
    (ht : Took tied v (((v.note (.dispatched frame)).note (.routed m frame)).closeConn m) peer) :
    Acts tied id v (((v.note (.dispatched frame)).note (.routed m frame)).closeConn m)
      (peer.bind fun out => out.saying? id) := by
  have hd : (((v.note (.dispatched frame)).note (.routed m frame)).closeConn m).dispatched =
      v.dispatched ++ [frame] := (dispatched_closeConn ..).trans (dispatched_note (.dispatched frame) v)
  obtain ⟨running, hfid, hopen, -, hstaged⟩ := addressee_spec h hto hf
  obtain ⟨out, rfl, rfl, hconn, -⟩ := ht.heard hd
  have hword : out.frame.flag.word? = some .talk := by
    rw [hseg.1]
    split <;> rfl
  refine acts_closeConn ((h.coherent.note _).note _) running rfl rfl rfl hf hopen (fun hid => ?_) ?_
  · refine hp.settled running hf hid hopen hstaged (Bool.of_not_eq_false fun hunsettled => hroom ?_)
    exact ⟨m, f.close, faces_closeConn_self hf hopen, hid, hunsettled, taken_ne_of_overflow h hf hseg⟩
  · obtain ⟨k, hk⟩ := hconn (by rw [hseg.1]; split <;> rfl)
    rw [Option.bind_some]
    by_cases hid : out.frame.id = id
    · exact .inr ⟨k, Outgoing.saying?_of_word hid hword hk⟩
    · exact .inl (Outgoing.saying?_of_ne hid)

/-- Each step of a view is an act of its seat, in which it says and hears what the frames say. -/
theorem Step.acts (hs : Step anyOne v w) (h : v.Sound settings) (hp : v.Placed id)
    (hroom : ¬ w.Overrun id) (ht : Took tied v w peer) :
    Acts tied id v w (peer.bind fun out => out.saying? id) := by
  have hco := h.coherent
  cases hs with
  | ask | goOn | award | accept | discard | hollow => exact acts_quiet rfl rfl rfl
  | serve asked hf | look hf | waste hf | enter hseg hto hf | grant hflag hto hf
  | farewell hflag hto hf =>
    exact acts_quiet rfl rfl (seat_congr rfl rfl rfl rfl (roles_setFace hf rfl rfl))
  | start running ht' => exact ⟨none, spoken_start ht', act_quiet rfl⟩
  | @request call new due asked running pos free =>
    obtain rfl := ht.silent (dispatched_post ..)
    have hcox : Coherent { v.addFace (.make v.settings new (.awaited call)) with
        registry := { v.registry with entries := v.registry.entries ++ [(new, v.faces.length)] } } :=
      { hco.addFace _ with
        registry := hco.registry
        no_entries := fun he => by rw [show v.closed = true from he] at running; cases running }
    exact acts_request hco running free (spoken_post hcox running rfl rfl rfl rfl) rfl rfl rfl
      ((roles_post ..).trans (roles_addFace ..)) (congrArg Registry.entries (post_registry ..))
      (post_closed ..) (post_staged ..) (post_acceptor ..)
  | refuse asked hf given =>
    obtain rfl := ht.silent rfl
    exact acts_refuse h hp asked hf given rfl rfl (roles_setFace hf rfl (Reply.standing_lose _)) rfl rfl
      rfl rfl
  | report asked hf hclosed =>
    obtain rfl := ht.silent (dispatched_post ..)
    exact acts_report h hp asked hf hclosed
  | send asked hstage hf running ha =>
    obtain rfl := ht.silent (dispatched_post ..)
    exact acts_send h hp asked hf running ha
  | leave m held =>
    obtain rfl := ht.silent (dispatched_closeConn ..)
    exact acts_leave h hp held
  | ping payload => exact acts_ping hco rfl rfl rfl rfl
  | echo => exact acts_ping (hco.note _) rfl rfl rfl rfl
  | @stage frame hflag running =>
    exact acts_stage hco hflag ht (dispatched_note (.dispatched frame) v) rfl rfl (roles_addFace ..) rfl rfl
      (by simp [note, addFace, Lanes.toList]) rfl
  | @stageLate frame hflag ended =>
    exact acts_stageLate hco hflag ht (dispatched_note (.dispatched frame) v) rfl rfl (roles_addFace ..) rfl rfl rfl rfl
  | overflow hseg hto hf => exact acts_overflow h hp hseg hto hf hroom ht
  | @answer frame accepted m f hflag hto hf =>
    exact acts_answer h hp hflag hto hf ht (dispatched_note (.dispatched frame) v) rfl rfl rfl rfl rfl rfl rfl
  | register running ht' hf hr =>
    obtain rfl := ht.silent rfl
    exact acts_register running ht' hf hr
  | turnAway running ht' hf hr =>
    obtain rfl := ht.silent (dispatched_post ..)
    exact acts_turnAway ht' hf (spoken_post ((hco.popStaged running ht').setFace _ _) running rfl rfl rfl rfl)
      rfl rfl rfl ((roles_post ..).trans (roles_setFace hf rfl (Reply.standing_lose _))) (post_registry ..)
      (post_closed ..) (post_staged ..) (post_acceptor ..)
  | @publish m f hp' hf =>
    obtain rfl := ht.silent (dispatched_post ..)
    have hnone : (if v.closed then AcceptorStage.over else .idle).publishing? = none := by split <;> rfl
    refine acts_publish hp' hf { hco with publishing_lt := fun k hk => ?_ } rfl rfl rfl rfl rfl rfl hnone
    rw [show (if v.closed then AcceptorStage.over else .idle) = .publishing k from hk] at hnone
    cases hnone
  | retire =>
    obtain rfl := ht.silent rfl
    exact ⟨none, spoken_same rfl rfl, .withhold⟩
  | close running =>
    obtain rfl := ht.silent rfl
    exact ⟨none, spoken_dropped rfl rfl, seat_close v ▸ .fall⟩

end Acts

end View

end StreamMux
