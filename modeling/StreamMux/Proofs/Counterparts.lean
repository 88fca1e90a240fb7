import Mathlib.Data.List.Zip
import StreamMux.Proofs.Acting

/-! Counterparts. Which request of one side became which connection of the other is read off their
histories: the requests that a writer took are answered for, one by one, by the connections that the
other side staged. Along a joint run the seats of both sides fit, so that what is routed to a connection
comes from its counterpart, or meets a connection that the peer has not accepted yet. -/

namespace StreamMux

/-! ### Requests and what became of them -/

/-- The connections that the frames ask for. -/
def requestsOf (outs : List Outgoing) : List Nat :=
  outs.filterMap fun out => if out.frame.flag = .newConn then out.conn else none

theorem requestsOf_append (outs more : List Outgoing) :
    requestsOf (outs ++ more) = requestsOf outs ++ requestsOf more := List.filterMap_append

theorem requestsOf_of_ne {out : Outgoing} (h : out.frame.flag ≠ .newConn) : requestsOf [out] = [] := by
  rw [requestsOf, List.filterMap_cons_none (by rw [if_neg h]), List.filterMap_nil]

/-- Every request names its connection. -/
theorem length_requestsOf {outs : List Outgoing}
    (h : ∀ out ∈ outs, out.frame.flag = .newConn → ∃ m, out.conn = some m) :
    (requestsOf outs).length = ((outs.map (·.frame)).filter (·.flag = .newConn)).length := by
  induction outs with
  | nil => rfl
  | cons out outs ih =>
    have ih := ih fun o ho => h o (List.mem_cons_of_mem _ ho)
    by_cases hf : out.frame.flag = .newConn
    · obtain ⟨m, hm⟩ := h out List.mem_cons_self hf
      rw [requestsOf, List.filterMap_cons_some (by rw [if_pos hf, hm]), List.map_cons,
        List.filter_cons_of_pos (by simpa using hf), List.length_cons, List.length_cons, ← ih]
      rfl
    · rw [requestsOf, List.filterMap_cons_none (by rw [if_neg hf]), List.map_cons,
        List.filter_cons_of_neg (by simpa using hf), ← ih]
      rfl

theorem getElem?_grow {α : Type} {xs ys : List α} {i : Nat} {x : α} (h : xs <+: ys)
    (hx : xs[i]? = some x) : ys[i]? = some x := by
  obtain ⟨rest, rfl⟩ := h
  rw [List.getElem?_append_left (List.getElem?_eq_some_iff.1 hx).1, hx]

/-- Pairs stay as the lists grow. -/
theorem mem_zip_grow {α β : Type} {as as' : List α} {bs bs' : List β} {p : α × β}
    (h : p ∈ as.zip bs) (ha : as <+: as') (hb : bs <+: bs') : p ∈ as'.zip bs' := by
  obtain ⟨i, hi⟩ := List.mem_iff_getElem?.1 h
  rw [List.getElem?_zip_eq_some] at hi
  refine List.mem_iff_getElem?.2 ⟨i, ?_⟩
  rw [List.getElem?_zip_eq_some]
  exact ⟨getElem?_grow ha hi.1, getElem?_grow hb hi.2⟩

/-- The frame answers a request. -/
def Flag.isAnswer : Flag → Bool
  | .newConnOk | .newConnFail => true
  | _ => false

theorem Flag.word?_of_isAnswer {f : Flag} (h : f.isAnswer = true) :
    ∃ yes : Bool, f.word? = some (if yes then .yes else .no) := by
  cases f with
  | newConnOk => exact ⟨true, rfl⟩
  | newConnFail => exact ⟨false, rfl⟩
  | _ => cases h

theorem Flag.word?_of_isRouted {f : Flag} (h : f.isRouted = true) (hanswer : f.isAnswer = false) :
    f.word? = some .talk := by
  cases f with
  | newConnOk | newConnFail => cases hanswer
  | newConn | ping | pingReturn => cases h
  | _ => rfl

/-- A connection that hears that it is accepted takes that in. -/
theorem Story.Step.confirmed {settings : Settings} {ended : Bool} {s s' : Story} {frame : Frame}
    (hs : Story.Step settings ended s s') (hheard : s'.heard = s.heard ++ [frame])
    (hflag : frame.flag = .newConnOk) : s'.face.reply = s.face.reply.answer true := by
  have hnew {other : Frame} (h : s.heard ++ [other] = s.heard ++ [frame]) : other = frame := by
    simpa using h
  have hold (h : s.heard = s.heard ++ [frame]) : False := absurd h (by simp)
  cases hs with
  | serve | look | waste | shut => exact (hold hheard).elim
  | report | send | deny | confirm =>
    rw [Story.heard_say] at hheard
    exact (hold hheard).elim
  | leave =>
    rw [Story.heard_leave] at hheard
    exact (hold hheard).elim
  | enter hid hopen hseg =>
    rw [← hnew hheard, hseg.1] at hflag
    split at hflag <;> cases hflag
  | overflow hid hopen hseg =>
    rw [Story.heard_leave] at hheard
    rw [← hnew hheard, hseg.1] at hflag
    split at hflag <;> cases hflag
  | hollow hid hopen hdata =>
    rw [hnew hheard, hflag] at hdata
    cases hdata
  | grant hid hopen hgrant =>
    rw [hnew hheard, hflag] at hgrant
    cases hgrant
  | farewell hid hopen hclose =>
    rw [hnew hheard, hflag] at hclose
    cases hclose
  | @answer other accepted hid hopen hanswer =>
    rw [hnew hheard, hflag] at hanswer
    cases accepted
    · cases hanswer
    · rfl

namespace View

variable {u v w : View} {id : Int32} {n : Nat} {may : View → Nat → Prop} {settings : Settings}

/-- The connections that the peer asked for. -/
def askedFor (v : View) : List Nat := history Event.staged? v.deeds

/-- The connections that the peer was asked for, by what the writer took. -/
def requests (v : View) : List Nat := requestsOf v.started

/-- The request of a connection of `u` became a connection of `v`. -/
def Became (u v : View) (m n : Nat) : Prop := (m, n) ∈ u.requests.zip v.askedFor

theorem askedFor_note (e : Event) (v : View) : (v.note e).askedFor = v.askedFor ++ e.staged?.toList :=
  history_cons ..

@[simp] theorem askedFor_post (out : Outgoing) (v : View) : (v.post out).askedFor = v.askedFor := by
  unfold post
  split
  · rfl
  · simp [askedFor, Event.staged?]

@[simp] theorem askedFor_closeConn (n : Nat) (v : View) : (v.closeConn n).askedFor = v.askedFor :=
  history_closeConn (fun _ => rfl) n v

/-- A connection is staged for each request that comes in, and for no other frame. -/
theorem Step.askedFor (hs : Step may v w) :
    (w.askedFor = v.askedFor ∧ (w.dispatched = v.dispatched ∨
      ∃ frame, frame.flag ≠ .newConn ∧ w.dispatched = v.dispatched ++ [frame])) ∨
    ∃ frame f, frame.flag = .newConn ∧ w.dispatched = v.dispatched ++ [frame] ∧
      w.askedFor = v.askedFor ++ [v.faces.length] ∧ w.faces[v.faces.length]? = some f ∧
      f.reply = .unasked ∧ f.id = frame.id := by
  cases hs with
  | ask | goOn | award | accept | refuse | look | waste | register | retire | close | serve | start =>
    exact .inl ⟨rfl, .inl rfl⟩
  | request | report | send | ping | turnAway | publish =>
    exact .inl ⟨askedFor_post .., .inl (dispatched_post ..)⟩
  | leave => exact .inl ⟨askedFor_closeConn .., .inl (dispatched_closeConn ..)⟩
  | @stage frame hflag running =>
    exact .inr ⟨frame, .make v.settings frame.id .unasked, hflag, dispatched_note (.dispatched frame) v,
      askedFor_note (.staged v.faces.length) v, by simp [note, addFace], rfl, rfl⟩
  | @stageLate frame hflag ended =>
    exact .inr ⟨frame, (Face.make v.settings frame.id .unasked).shut, hflag,
      dispatched_note (.dispatched frame) v, askedFor_note (.staged v.faces.length) v,
      by simp [note, addFace], rfl, rfl⟩
  | @echo frame payload hflag hp =>
    exact .inl ⟨askedFor_post .., .inr ⟨frame, by simp [hflag],
      (dispatched_post ..).trans (dispatched_note (.dispatched frame) v)⟩⟩
  | @discard frame hflag hto => exact .inl ⟨rfl, .inr ⟨frame, hflag, dispatched_note (.dispatched frame) v⟩⟩
  | @enter frame data part m f receive hseg hto hf hw =>
    exact .inl ⟨rfl, .inr ⟨frame, by rw [hseg.1]; split <;> simp, dispatched_note (.dispatched frame) v⟩⟩
  | @overflow frame data part m f cause hseg hto hf hw =>
    exact .inl ⟨askedFor_closeConn .., .inr ⟨frame, by rw [hseg.1]; split <;> simp,
      (dispatched_closeConn ..).trans (dispatched_note (.dispatched frame) v)⟩⟩
  | @hollow frame m hflag hp hto =>
    have hne : frame.flag ≠ .newConn := by
      intro he
      rw [he] at hflag
      cases hflag
    exact .inl ⟨rfl, .inr ⟨frame, hne, dispatched_note (.dispatched frame) v⟩⟩
  | @answer frame accepted m f hflag hto hf =>
    exact .inl ⟨rfl, .inr ⟨frame, by rw [hflag]; split <;> simp, dispatched_note (.dispatched frame) v⟩⟩
  | @grant frame m f hflag hto hf | @farewell frame m f hflag hto hf =>
    exact .inl ⟨rfl, .inr ⟨frame, by simp [hflag], dispatched_note (.dispatched frame) v⟩⟩

theorem requestsOf_post {out : Outgoing} (h : out.frame.flag ≠ .newConn) (v : View) :
    requestsOf (v.post out).queued = requestsOf v.queued := by
  cases hc : v.closed
  · rw [queued_post out hc, requestsOf_append, requestsOf_of_ne h, List.append_nil]
  · rw [post_of_closed out hc]

theorem requestsOf_closeConn (n : Nat) (v : View) :
    requestsOf (v.closeConn n).queued = requestsOf v.queued := by
  refine closeConn_cases (P := fun w => requestsOf w.queued = requestsOf v.queued) rfl fun f hf hopen => ?_
  rw [closeConn_of_open hf hopen]
  show requestsOf (v.sayClosed n f).queued = requestsOf v.queued
  unfold sayClosed
  split
  · rfl
  · exact requestsOf_post (by simp [Frame.control]) v

/-- A request is queued for a new connection, and for no other. -/
theorem Step.requested (hs : Step may v w) : requestsOf w.queued = requestsOf v.queued ∨
    requestsOf w.queued = requestsOf v.queued ++ [v.faces.length] ∧
      ∃ f, w.faces[v.faces.length]? = some f ∧ f.reply ≠ .unasked := by
  cases hs with
  | ask | goOn | award | accept | refuse | look | waste | register | retire | close | serve | start
  | stage | stageLate | discard | enter | hollow | answer | grant | farewell => exact .inl rfl
  | leave | overflow => exact .inl (requestsOf_closeConn ..)
  | send =>
    refine .inl (requestsOf_post ?_ _)
    dsimp only [Frame.data]
    split <;> simp
  | report | ping | turnAway | publish | echo =>
    exact .inl (requestsOf_post (by simp [Frame.control, Frame.sendOk, Frame.ping, Frame.pingReturn]) _)
  | @request call id due asked running =>
    refine .inr ⟨?_, .make v.settings id (.awaited call), by simp [setStage, addFace], by simp [Face.make]⟩
    let x : View := { v.addFace (.make v.settings id (.awaited call)) with
      registry := { v.registry with entries := v.registry.entries ++ [(id, v.faces.length)] } }
    have hq (out : Outgoing) : (x.post out).queued = v.queued ++ [out] := queued_post out running
    show requestsOf (x.post _).queued = _
    rw [hq, requestsOf_append]
    rfl

/-- The connections that the peer asked for are as many as the requests that came in. No connection is
asked for twice, by the peer, by the user or by both. -/
structure Listed (v : View) : Prop where
  aligned : v.askedFor.length = (v.dispatched.filter (·.flag = .newConn)).length
  unasked : ∀ n ∈ v.askedFor, ∃ f, v.faces[n]? = some f ∧ f.reply = .unasked
  asked : ∀ n ∈ requestsOf v.queued, ∃ f, v.faces[n]? = some f ∧ f.reply ≠ .unasked
  nodup : v.askedFor.Nodup
  requests_nodup : (requestsOf v.queued).Nodup

theorem nodup_concat {ns : List Nat} {k : Nat} (h : ns.Nodup) (hlt : ∀ n ∈ ns, n < k) :
    (ns ++ [k]).Nodup := by
  refine List.nodup_append.2 ⟨h, by simp, fun a ha b hb hab => ?_⟩
  rw [List.mem_singleton.1 hb] at hab
  exact absurd (hlt a ha) (by omega)

theorem Step.listed (hs : Step may v w) (h : v.Sound settings) (hl : v.Listed) : w.Listed := by
  have hlt {n : Nat} {P : Face → Prop} (hn : ∃ f, v.faces[n]? = some f ∧ P f) : n < v.faces.length := by
    obtain ⟨f, hf, -⟩ := hn
    exact (List.getElem?_eq_some_iff.1 hf).1
  have hunasked (n : Nat) (hn : n ∈ v.askedFor) : ∃ f, w.faces[n]? = some f ∧ f.reply = .unasked := by
    obtain ⟨f, hf, hreply⟩ := hl.unasked n hn
    exact (hs.exists_kept h hf).imp fun g hg => ⟨hg.1, hg.2.unasked.2 hreply⟩
  have hasked (n : Nat) (hn : n ∈ requestsOf v.queued) : ∃ f, w.faces[n]? = some f ∧ f.reply ≠ .unasked := by
    obtain ⟨f, hf, hreply⟩ := hl.asked n hn
    exact (hs.exists_kept h hf).imp fun g hg => ⟨hg.1, fun he => hreply (hg.2.unasked.1 he)⟩
  obtain ⟨hown, hnodup⟩ : (∀ n ∈ requestsOf w.queued, ∃ f, w.faces[n]? = some f ∧ f.reply ≠ .unasked) ∧
      (requestsOf w.queued).Nodup := by
    rcases hs.requested with he | ⟨he, hnew⟩
    · rw [he]
      exact ⟨hasked, hl.requests_nodup⟩
    · rw [he]
      refine ⟨fun n hn => ?_, nodup_concat hl.requests_nodup fun n hn => hlt (hl.asked n hn)⟩
      rcases List.mem_append.1 hn with hn | hn
      · exact hasked n hn
      · exact List.mem_singleton.1 hn ▸ hnew
  rcases hs.askedFor with ⟨he, hd⟩ | ⟨frame, f, hflag, hd, he, hf, hreply, -⟩
  · refine ⟨?_, he ▸ hunasked, hown, he ▸ hl.nodup, hnodup⟩
    rcases hd with hd | ⟨frame, hflag, hd⟩
    · rw [he, hd, hl.aligned]
    · rw [he, hd, List.filter_append, List.filter_cons_of_neg (by simpa using hflag), List.filter_nil,
        List.append_nil, hl.aligned]
  · refine ⟨?_, fun n hn => ?_, hown, ?_, hnodup⟩
    · rw [he, hd, List.filter_append, List.filter_cons_of_pos (by simpa using hflag), List.filter_nil,
        List.length_append, List.length_append, hl.aligned]
      rfl
    · rw [he, List.mem_append, List.mem_singleton] at hn
      rcases hn with hn | rfl
      · exact hunasked n hn
      · exact ⟨f, hf, hreply⟩
    · rw [he]
      exact nodup_concat hl.nodup fun n hn => hlt (hl.unasked n hn)

theorem Step.askedFor_prefix (hs : Step may v w) : v.askedFor <+: w.askedFor := by
  rcases hs.askedFor with ⟨hasked, -⟩ | ⟨-, -, -, -, hasked, -⟩
  · exact hasked ▸ List.prefix_refl _
  · exact hasked ▸ List.prefix_append ..

/-! ### The counterpart -/

/-- The connections belong to one request. -/
def Counterparts (u v : View) (m n : Nat) : Prop := Became u v m n ∨ Became v u n m

/-- Requests keep to the lane that is in order with all else. -/
theorem requestsOf_onLane (outs : List Outgoing) : requestsOf (onLane .normal outs) = requestsOf outs := by
  induction outs with
  | nil => rfl
  | cons out outs ih =>
    by_cases hl : out.lane = .normal
    · have : onLane .normal (out :: outs) = [out] ++ onLane .normal outs := by simp [onLane, hl]
      rw [this, requestsOf_append, ih, ← requestsOf_append]
      rfl
    · have : onLane .normal (out :: outs) = onLane .normal outs := by simp [onLane, hl]
      have hne : out.frame.flag ≠ .newConn := fun hf => hl (by simp [Outgoing.lane, hf, Flag.isPriority])
      rw [this, ih, ← List.singleton_append, requestsOf_append, requestsOf_of_ne hne, List.nil_append]

/-- What was asked for on the link was queued before, in the same order. -/
theorem requests_queued (h : v.Sound settings) : v.requests <+: requestsOf v.queued := by
  obtain ⟨rest, hq, -⟩ := h.orderly.lanes .normal
  rw [requests, ← requestsOf_onLane, ← requestsOf_onLane v.queued, hq, requestsOf_append]
  exact List.prefix_append ..

/-- In a list of pairs whose first components differ, each has one second component. -/
theorem eq_of_mem_zip {α β : Type} {as : List α} {bs : List β} {a : α} {b c : β} (ha : as.Nodup)
    (hb : (a, b) ∈ as.zip bs) (hc : (a, c) ∈ as.zip bs) : b = c := by
  obtain ⟨i, hi⟩ := List.mem_iff_getElem?.1 hb
  obtain ⟨j, hj⟩ := List.mem_iff_getElem?.1 hc
  rw [List.getElem?_zip_eq_some] at hi hj
  obtain ⟨hlt, hget⟩ := List.getElem?_eq_some_iff.1 hi.1
  obtain rfl : i = j := (List.getElem?_inj hlt ha).1 (hi.1.trans hj.1.symm)
  exact Option.some.inj (hi.2.symm.trans hj.2)

/-- A connection has at most one counterpart. -/
theorem Counterparts.unique (h : u.Sound settings) (hl : u.Listed) {m k : Nat} (hm : Counterparts u v n m)
    (hk : Counterparts u v n k) : k = m := by
  have hnodup := (requests_queued h).sublist.nodup hl.requests_nodup
  -- The user asked for the connection or the peer did, but not both.
  have hapart {m k : Nat} (hm : Became u v n m) (hk : Became v u k n) : False := by
    obtain ⟨f, hf, hne⟩ := hl.asked n ((requests_queued h).subset (List.of_mem_zip hm).1)
    obtain ⟨g, hg, hreply⟩ := hl.unasked n (List.of_mem_zip hk).2
    rw [hf] at hg
    cases hg
    exact hne hreply
  rcases hm with hm | hm <;> rcases hk with hk | hk
  · exact eq_of_mem_zip hnodup hk hm
  · exact (hapart hm hk).elim
  · exact (hapart hk hm).elim
  · have hswap {m : Nat} (hm : Became v u m n) : (n, m) ∈ u.askedFor.zip v.requests := by
      rw [← List.zip_swap]
      exact List.mem_map.2 ⟨_, hm, rfl⟩
    exact eq_of_mem_zip hl.nodup (hswap hk) (hswap hm)

/-! ### What one side takes in -/

section Two

variable {frame : Frame}

/-- The next frame that `u` takes in from `v`. -/
theorem exists_of_heard (hv : v.Sound settings) (hd : u.dispatched ++ [frame] <+: heardAs v.started) :
    ∃ out, v.started[u.dispatched.length]? = some out ∧ out.frame = frame ∧
      (frame.flag.forConn = true → ∃ m, out.conn = some m) := by
  have hframe : (heardAs v.started)[u.dispatched.length]? = some frame :=
    getElem?_grow hd List.getElem?_concat_length
  obtain ⟨out, hout, rfl⟩ : ∃ out, v.started[u.dispatched.length]? = some out ∧ out.frame.normal = frame := by
    simpa [heardAs] using hframe
  have hq := hv.orderly.mem_queued (List.mem_of_getElem? hout)
  rw [hv.orderly.normal out hq]
  refine ⟨out, hout, rfl, fun hconn => ?_⟩
  rcases hv.orderly.named out hq with ⟨hnone, -⟩ | ⟨m, hm, -⟩
  · rw [hnone] at hconn
    cases hconn
  · exact ⟨m, hm⟩

/-- What the peer takes in next is under way. -/
theorem mem_sayings {out : Outgoing} {k m : Nat} {word : Word} (hout : v.started[k]? = some out)
    (hid : out.frame.id = id) (hm : out.conn = some m) (hword : out.frame.flag.word? = some word) :
    (word, m) ∈ v.sayings id k := by
  obtain ⟨hlt, hget⟩ := List.getElem?_eq_some_iff.1 hout
  refine List.mem_filterMap.2 ⟨out, List.mem_append_left _ ?_, Outgoing.saying?_of_word hid hword hm⟩
  rw [List.drop_eq_getElem_cons hlt, hget]
  exact List.mem_cons_self

/-- A request that comes in becomes the next connection that is staged. -/
theorem became_of_heard (hv : v.Sound settings) (hl : u.Listed)
    (hheard : u.dispatched <+: v.started.map (·.frame)) {out : Outgoing} {m : Nat}
    (hout : v.started[u.dispatched.length]? = some out) (hflag : out.frame.flag = .newConn)
    (hm : out.conn = some m) (hasked : w.askedFor = u.askedFor ++ [n]) : v.Became w m n := by
  obtain ⟨hlt, hget⟩ := List.getElem?_eq_some_iff.1 hout
  have htaken : u.dispatched = (v.started.take u.dispatched.length).map (·.frame) := by
    rw [List.map_take]
    exact List.prefix_iff_eq_take.1 hheard
  have haligned : (requestsOf (v.started.take u.dispatched.length)).length = u.askedFor.length := by
    rw [hl.aligned, length_requestsOf fun o ho hf => ?_, ← htaken]
    rcases hv.orderly.named o (hv.orderly.mem_queued (List.mem_of_mem_take ho)) with ⟨hnone, -⟩ | ⟨k, hk, -⟩
    · rw [hf] at hnone
      cases hnone
    · exact ⟨k, hk⟩
  have hsplit : v.requests = requestsOf (v.started.take u.dispatched.length) ++
      m :: requestsOf (v.started.drop (u.dispatched.length + 1)) := by
    rw [requests, ← List.take_append_drop u.dispatched.length v.started, requestsOf_append,
      List.take_append_drop, List.drop_eq_getElem_cons hlt, hget]
    congr 1
    rw [requestsOf, List.filterMap_cons_some (by rw [if_pos hflag, hm])]
    rfl
  rw [Became, hsplit, hasked, List.zip_append haligned]
  exact List.mem_append_right _ List.mem_cons_self

/-- What `w` took in since `u` is the next word under way, if it is one. -/
theorem Step.exists_took (id : Int32) (hs : Step may u w) (hv : v.Sound settings) (hl : u.Listed)
    (hheard : u.dispatched <+: v.started.map (·.frame)) (hnew : w.dispatched <+: heardAs v.started) :
    ∃ peer, Took (Became v w) u w peer ∧ v.sayings id u.dispatched.length =
      (peer.bind fun out => out.saying? id).toList ++ v.sayings id w.dispatched.length := by
  cases hs.hearing with
  | silent hearings dispatched => exact ⟨none, .nothing dispatched, by rw [dispatched]; rfl⟩
  | heard frame target hearings dispatched =>
    rw [dispatched] at hnew
    obtain ⟨out, hout, rfl, hconn⟩ := exists_of_heard hv hnew
    obtain ⟨hlt, hget⟩ := List.getElem?_eq_some_iff.1 hout
    refine ⟨some out, .frame out dispatched hconn fun hflag m hm => ?_, ?_⟩
    · rcases hs.askedFor with ⟨-, hsame | ⟨frame, hne, hd⟩⟩ | ⟨-, -, -, -, hasked, -⟩
      · rw [dispatched] at hsame
        exact absurd hsame (by simp)
      · rw [dispatched] at hd
        obtain rfl : out.frame = frame := by simpa using hd
        exact absurd hflag hne
      · exact became_of_heard hv hl hheard hout hflag hm hasked
    · rw [sayings, sayings, dispatched, List.length_append, List.length_singleton,
        List.drop_eq_getElem_cons hlt, hget, List.cons_append, Option.bind_some]
      cases hx : out.saying? id with
      | none => rw [List.filterMap_cons_none hx, Option.toList_none, List.nil_append]
      | some x => rw [List.filterMap_cons_some hx, Option.toList_some, List.singleton_append]

theorem requests_grow (h : u.started <+: w.started) : u.requests <+: w.requests := by
  obtain ⟨rest, hr⟩ := h
  rw [requests, requests, ← hr, requestsOf_append]
  exact List.prefix_append ..

/-- The end of `u` at the link to `v`. -/
def endOf (id : Int32) (u v : View) (last : Option Nat) : End :=
  ⟨u.seat id, u.sayings id v.dispatched.length, last⟩

/-- The two sides fit each other under the id. -/
def Fits (id : Int32) (u v : View) : Prop := ∃ last last' phase,
  Tidy (Became u v) (Became v u) (u.endOf id v last) (v.endOf id u last') phase

theorem Fits.symm (h : Fits id u v) : Fits id v u := by
  obtain ⟨last, last', phase, h⟩ := h
  exact ⟨last', last, phase.flip, h.symm⟩

/-- Two sides that fit each other do so after a step of one of them. -/
theorem Step.fits (hs : Step anyOne u w) (hu : u.Sound settings) (hp : u.Placed id) (hl : u.Listed)
    (hroom : ¬ w.Overrun id) (hv : v.Sound settings) (hheard : u.dispatched <+: v.started.map (·.frame))
    (hnew : w.dispatched <+: heardAs v.started) (hback : v.dispatched <+: u.started.map (·.frame))
    (h : Fits id u v) : Fits id w v := by
  obtain ⟨last, last', phase, h⟩ := h
  obtain ⟨peer, htook, hwords⟩ := hs.exists_took id hv hl hheard hnew
  obtain ⟨said, hspoken, hact⟩ := hs.acts hu hp hroom htook
  have hlen : v.dispatched.length ≤ u.started.length := by
    simpa using hback.length_le
  have hmine (m n : Nat) (hmn : Became u v m n) : Became w v m n := mem_zip_grow hmn
    (requests_grow (hs.started_prefix hu.coherent hu.filed hu.asked)) (List.prefix_refl _)
  have hyours (m n : Nat) (hmn : Became v u m n) : Became v w m n :=
    mem_zip_grow hmn (List.prefix_refl _) hs.askedFor_prefix
  obtain ⟨next, phase', h'⟩ := h.act hact (hspoken _ hlen) hwords hmine hyours
  exact ⟨next, last', phase', h'⟩

/-! ### Where frames meet connections -/

/-- The user asked for the connection, and it has not heard among the first frames that it is accepted. -/
def Unaccepted (u : View) (count n : Nat) : Prop :=
  n ∉ u.askedFor ∧ ∀ j < count, ∀ frame, u.hearings[j]? = some (frame, some n) → frame.flag ≠ .newConnOk

/-- Every frame that was routed to a connection of `u` under the id comes from `v`: an answer from what
became of the request of the connection, any other frame from its counterpart, but for those that came
in before the connection was accepted. -/
structure Meets (id : Int32) (u v : View) : Prop where
  accepted : ∀ (n : Nat) (frame : Frame) (f : Face), (frame, some n) ∈ u.hearings →
    frame.flag = .newConnOk → u.faces[n]? = some f → f.id = id → f.reply.isSettled = true
  origin : ∀ (i n : Nat) (frame : Frame), u.hearings[i]? = some (frame, some n) → frame.id = id →
    ∃ out m, v.started[i]? = some out ∧ out.frame = frame ∧ out.conn = some m ∧
      (frame.flag.isAnswer = true → Became u v n m) ∧
      (frame.flag.isAnswer = false → Counterparts u v n m ∨ u.Unaccepted i n)

/-- The far side goes on. -/
theorem Meets.far (h : Meets id u v) (hstarted : v.started <+: w.started)
    (hasked : v.askedFor <+: w.askedFor) : Meets id u w where
  accepted := h.accepted
  origin i n frame hi hid := by
    obtain ⟨out, m, hout, hframe, hm, hanswer, hother⟩ := h.origin i n frame hi hid
    have hmine (m n : Nat) (hmn : Became u v m n) : Became u w m n :=
      mem_zip_grow hmn (List.prefix_refl _) hasked
    have hyours (m n : Nat) (hmn : Became v u m n) : Became w u m n :=
      mem_zip_grow hmn (requests_grow hstarted) (List.prefix_refl _)
    refine ⟨out, m, getElem?_grow hstarted hout, hframe, hm, fun ha => hmine _ _ (hanswer ha),
      fun ha => ?_⟩
    exact (hother ha).imp_left fun hc => hc.imp (hmine _ _) (hyours _ _)

/-- Whoever heard a frame is there. -/
theorem lt_of_heard (hu : u.Sound settings) (h : (frame, some n) ∈ u.hearings) : n < u.faces.length := by
  have hheard : frame ∈ u.heard n := by
    rw [hu.heard]
    exact List.mem_map.2 ⟨_, List.mem_filter.2 ⟨h, by simp⟩, rfl⟩
  obtain ⟨e, he, hpick⟩ := mem_history.1 hheard
  refine hu.rooted e he n ?_
  cases e with
  | routed k f =>
    simp only [Event.routed?] at hpick
    split at hpick
    · rename_i hk
      rw [Event.conn?, hk]
    · cases hpick
  | _ => cases hpick

/-- Who was not asked for by the peer is not asked for later. -/
theorem Step.not_mem_askedFor (hs : Step may u w) (hn : n < u.faces.length) (h : n ∉ u.askedFor) :
    n ∉ w.askedFor := by
  rcases hs.askedFor with ⟨hasked, -⟩ | ⟨-, -, -, -, hasked, -⟩
  · rwa [hasked]
  · rw [hasked, List.mem_append, List.mem_singleton, not_or]
    exact ⟨h, Nat.ne_of_lt hn⟩

/-- The connection that an answer reaches waits for it. -/
theorem Step.settled_of_confirmed (hs : Step may u w) (hu : u.Sound settings) (hp : u.Placed id)
    (hd : ∀ k, w.heard k = u.heard k ++ if n = k then [frame] else []) (hflag : frame.flag = .newConnOk)
    (hstanding : u.standing id n = some .asking) {f g : Face} (hf : u.faces[n]? = some f)
    (hopen : f.closed = false) (hg : w.faces[n]? = some g) : g.reply.isSettled = true := by
  obtain ⟨s, s', hs₀, rfl, hs', hstep⟩ := hs.follows hu hf
  have hg' := face_of_story hs'
  rw [hg] at hg'
  cases hg'
  have hheard : s'.heard = s.heard ++ [frame] := by
    rw [eq_of_story hs₀, eq_of_story hs']
    dsimp only
    rw [hd n, if_pos rfl]
  rcases hstep with rfl | hstep
  · exact absurd hheard (by simp)
  · rw [hstep.confirmed hheard hflag]
    obtain ⟨f', hf', -, hst⟩ := exists_of_standing hstanding
    rw [hf] at hf'
    cases hf'
    have hlost := hp.lost _ (List.mem_of_getElem? hf)
    cases hr : s.face.reply with
    | awaited call => rfl
    | lost =>
      rw [hlost hr] at hopen
      cases hopen
    | unasked =>
      rw [hr] at hst
      cases hst
    | given accepted =>
      rw [hr] at hst
      cases accepted <;> cases hst

/-- Who has heard that it is accepted stays so. -/
theorem Step.accepted (hs : Step may u w) (hu : u.Sound settings) {f : Face}
    (h : ∀ f, u.faces[n]? = some f → f.id = id → f.reply.isSettled = true) (hn : n < u.faces.length)
    (hf : w.faces[n]? = some f) (hid : f.id = id) : f.reply.isSettled = true := by
  have hold := List.getElem?_eq_getElem hn
  have hkept := hs.kept_face hu hold hf
  exact hkept.settled (h _ hold (hkept.id.symm.trans hid))

/-- What a frame meets that comes in now. -/
theorem Fits.origin (hfits : Fits id u v) (hu : u.Sound settings) (hl : u.Listed)
    (hv : v.Sound settings) (hnew : u.dispatched ++ [frame] <+: heardAs v.started)
    (hmeets : Meets id u v) (hrouted : frame.flag.isRouted = true)
    (hto : u.addressee frame.id = some n) (hid : frame.id = id) :
    ∃ out m, v.started[u.dispatched.length]? = some out ∧ out.frame = frame ∧ out.conn = some m ∧
      (frame.flag.isAnswer = true → Became u v n m ∧ u.standing id n = some .asking) ∧
      (frame.flag.isAnswer = false →
        Counterparts u v n m ∨ u.Unaccepted u.dispatched.length n) := by
  obtain ⟨f, hf, -⟩ := exists_of_addressee hto
  obtain ⟨running, hfid, hopen, hlook, -⟩ := addressee_spec hu hto hf
  obtain ⟨out, hout, rfl, hconn⟩ := exists_of_heard hv hnew
  obtain ⟨m, hm⟩ := hconn (Flag.forConn_of_isRouted hrouted)
  obtain ⟨last, last', phase, htidy⟩ := hfits
  have hlive : (u.endOf id v last).seat.live = true := by simp [endOf, seat, running]
  have hheld : (u.endOf id v last).seat.holder = some n := hid ▸ hlook
  have hmem {word : Word} (hword : out.frame.flag.word? = some word) :
      (word, m) ∈ (v.endOf id u last').words := mem_sayings hout hid hm hword
  refine ⟨out, m, hout, rfl, hm, fun hanswer => ?_, fun hother => ?_⟩
  · obtain ⟨yes, hword⟩ := Flag.word?_of_isAnswer hanswer
    exact htidy.tied_of_answer hlive hheld (hmem hword)
  · have htalk := (htidy.meets hlive hheld (hmem (Flag.word?_of_isRouted hrouted hother))).2 rfl
    refine htalk.imp_right fun hstanding => ?_
    have hst : f.reply.standing = .asking ∨ f.reply.standing = .refused := by
      have hst : u.standing id n = some f.reply.standing := by
        rw [standing_of_face hf, if_pos (hfid.trans hid)]
      exact hstanding.imp (fun h => Option.some.inj (hst.symm.trans h))
        fun h => Option.some.inj (hst.symm.trans h)
    refine ⟨fun hasked => ?_, fun j hj other hother hflag => ?_⟩
    · obtain ⟨g, hg, hreply⟩ := hl.unasked n hasked
      rw [hf] at hg
      cases hg
      rw [hreply] at hst
      rcases hst with hst | hst <;> cases hst
    · have hset := hmeets.accepted n other f (List.mem_of_getElem? hother) hflag hf (hfid.trans hid)
      rw [← Reply.settled_standing] at hset
      rcases hst with hst | hst <;> rw [hst] at hset <;> cases hset

/-- The near side goes on. -/
theorem Step.meets (hs : Step anyOne u w) (hu : u.Sound settings) (hp : u.Placed id) (hl : u.Listed)
    (hv : v.Sound settings) (hnew : w.dispatched <+: heardAs v.started) (hfits : Fits id u v)
    (h : Meets id u v) : Meets id w v := by
  have hlength : u.hearings.length = u.dispatched.length := by rw [hu.dispatched, List.length_map]
  have hmine (m n : Nat) (hmn : Became u v m n) : Became w v m n := mem_zip_grow hmn
    (requests_grow (hs.started_prefix hu.coherent hu.filed hu.asked)) (List.prefix_refl _)
  have hyours (m n : Nat) (hmn : Became v u m n) : Became v w m n :=
    mem_zip_grow hmn (List.prefix_refl _) hs.askedFor_prefix
  have hunaccepted {i n : Nat} (hn : n < u.faces.length) (hi : i ≤ u.hearings.length)
      (hpre : u.hearings <+: w.hearings) (hun : u.Unaccepted i n) : w.Unaccepted i n := by
    refine ⟨hs.not_mem_askedFor hn hun.1, fun j hj frame hframe => hun.2 j hj frame ?_⟩
    have hlt : j < u.hearings.length := Nat.lt_of_lt_of_le hj hi
    rw [← hframe, getElem?_grow hpre (List.getElem?_eq_getElem hlt), List.getElem?_eq_getElem hlt]
  -- What was heard before stays as it was.
  have horigin (hpre : u.hearings <+: w.hearings) {i n : Nat} {frame : Frame}
      (hi : u.hearings[i]? = some (frame, some n)) (hid : frame.id = id) :
      ∃ out m, v.started[i]? = some out ∧ out.frame = frame ∧ out.conn = some m ∧
        (frame.flag.isAnswer = true → Became w v n m) ∧
        (frame.flag.isAnswer = false → Counterparts w v n m ∨ w.Unaccepted i n) := by
    obtain ⟨out, m, hout, hframe, hm, hanswer, hother⟩ := h.origin i n frame hi hid
    refine ⟨out, m, hout, hframe, hm, fun ha => hmine _ _ (hanswer ha), fun ha => ?_⟩
    refine (hother ha).imp (fun hc => hc.imp (hmine _ _) (hyours _ _)) ?_
    exact hunaccepted (lt_of_heard hu (List.mem_of_getElem? hi))
      (Nat.le_of_lt (List.getElem?_eq_some_iff.1 hi).1) hpre
  cases hs.hearing with
  | silent hearings dispatched =>
    refine ⟨fun n frame f hmem hflag hf hid => ?_, fun i n frame hi hid => ?_⟩
    · rw [hearings] at hmem
      exact hs.accepted hu (fun g => h.accepted n frame g hmem hflag) (lt_of_heard hu hmem) hf hid
    · rw [hearings] at hi
      exact horigin (hearings ▸ List.prefix_refl _) hi hid
  | heard frame target hearings dispatched heard route =>
    rw [dispatched] at hnew
    have hpre : u.hearings <+: w.hearings := hearings ▸ List.prefix_append ..
    -- The frame that comes in now is routed to the connection that holds its id.
    have hroute {n : Nat} (htarget : target = some n) :
        frame.flag.isRouted = true ∧ u.addressee frame.id = some n := by
      rw [htarget] at route
      split at route
      · rename_i hrouted
        exact ⟨hrouted, route.symm⟩
      · cases route
    refine ⟨fun n other f hmem hflag hf hid => ?_, fun i n other hi hid => ?_⟩
    · rw [hearings, List.mem_append, List.mem_singleton] at hmem
      rcases hmem with hmem | hmem
      · exact hs.accepted hu (fun g => h.accepted n other g hmem hflag) (lt_of_heard hu hmem) hf hid
      · obtain ⟨rfl, htarget⟩ := Prod.mk.inj hmem
        obtain ⟨hrouted, hto⟩ := hroute htarget.symm
        obtain ⟨g, hg, hopen, -⟩ := exists_of_addressee hto
        have hgid := (addressee_spec hu hto hg).2.1
        have hfid : f.id = g.id := (hs.kept_face hu hg hf).id
        obtain ⟨out, m, -, -, -, hanswer, -⟩ :=
          hfits.origin hu hl hv hnew h hrouted hto (hgid.symm.trans (hfid.symm.trans hid))
        refine hs.settled_of_confirmed hu hp (fun k => ?_) hflag (hanswer (by rw [hflag]; rfl)).2 hg hopen hf
        rw [heard, ← htarget]
        simp only [Option.some.injEq]
    · rw [hearings] at hi
      rcases Nat.lt_or_ge i u.hearings.length with hlt | hge
      · rw [List.getElem?_append_left hlt] at hi
        exact horigin hpre hi hid
      · rw [List.getElem?_append_right hge, List.getElem?_singleton] at hi
        split at hi
        · obtain rfl : i = u.hearings.length := by omega
          obtain ⟨rfl, htarget⟩ := Prod.mk.inj (Option.some.inj hi)
          obtain ⟨hrouted, hto⟩ := hroute htarget
          obtain ⟨out, m, hout, hframe, hm, hanswer, hother⟩ :=
            hfits.origin hu hl hv hnew h hrouted hto hid
          rw [← hlength] at hout hother
          obtain ⟨g, hg, -⟩ := exists_of_addressee hto
          refine ⟨out, m, hout, hframe, hm, fun ha => hmine _ _ (hanswer ha).1, fun ha => ?_⟩
          refine (hother ha).imp (fun hc => hc.imp (hmine _ _) (hyours _ _)) ?_
          exact hunaccepted (List.getElem?_eq_some_iff.1 hg).1 (Nat.le_refl _) hpre
        · cases hi

end Two

end View

end StreamMux
