import StreamMux.Proofs.Filing

/-! The frames that a session sends. Each that is for a connection carries its id, a staged connection
has sent none, and data and credit are sent only for a connection that a call has given to the user. In
each lane the frames leave the queue in the order in which they entered it. -/

namespace StreamMux

/-- The frame is for a connection, and not for the session itself. -/
def Flag.forConn : Flag → Bool
  | .ping | .pingReturn => false
  | _ => true

/-- The frame is part of what the users of a connection exchange. -/
def Flag.isExchange : Flag → Bool
  | .newMsg | .newMsgPart | .msgSendOk => true
  | _ => false

theorem Flag.forConn_of_isExchange {f : Flag} (h : f.isExchange = true) : f.forConn = true := by
  cases f <;> first | rfl | cases h

namespace View

/-! ### Histories -/

def queued (v : View) : List Outgoing := history Event.queued? v.deeds

def started (v : View) : List Outgoing := history Event.started? v.deeds

def dispatched (v : View) : List Frame := history Event.dispatched? v.deeds

variable {v w : View}

theorem started_note (e : Event) (v : View) : (v.note e).started = v.started ++ e.started?.toList :=
  history_cons ..

theorem dispatched_note (e : Event) (v : View) :
    (v.note e).dispatched = v.dispatched ++ e.dispatched?.toList := history_cons ..

theorem queued_post (out : Outgoing) (h : v.closed = false) :
    (v.post out).queued = v.queued ++ [out] := by
  simp only [post, h, Bool.false_eq_true, ↓reduceIte, queued, history_cons, Event.queued?,
    Option.toList_some]

@[simp] theorem started_post (out : Outgoing) (v : View) : (v.post out).started = v.started := by
  unfold post
  split
  · rfl
  · simp [started, Event.started?]

@[simp] theorem dispatched_post (out : Outgoing) (v : View) :
    (v.post out).dispatched = v.dispatched := by
  unfold post
  split
  · rfl
  · simp [dispatched, Event.dispatched?]

/-! ### The write queue -/

/-- The frames of one lane. -/
def onLane (lane : Lane) (outs : List Outgoing) : List Outgoing :=
  outs.filter fun out => decide (out.lane = lane)

theorem onLane_append (lane : Lane) (outs more : List Outgoing) :
    onLane lane (outs ++ more) = onLane lane outs ++ onLane lane more := List.filter_append ..

end View

/-- What a lane of a queue holds. -/
def Lanes.lane {α : Type} (l : Lanes α) : Lane → List α
  | .priority => l.priority
  | .normal => l.normal

theorem Lanes.lane_push {α : Type} {l l' : Lanes α} {into : Lane} {x : α} (h : l.push into x = some l')
    (lane : Lane) : l'.lane lane = l.lane lane ++ if into = lane then [x] else [] := by
  unfold push at h
  split at h
  · cases h
  · cases into <;> cases lane <;> cases h <;> simp [Lanes.lane]

/-- What is taken is the first of its lane. -/
theorem Lanes.lane_take {α : Type} {l l' : Lanes α} {x : α} (h : l.take = (l', some x)) :
    (l.priority = x :: l'.priority ∧ l'.normal = l.normal) ∨
      (l.priority = [] ∧ l'.priority = [] ∧ l.normal = x :: l'.normal) := by
  unfold take at h
  split at h
  · rename_i hp
    cases h
    exact .inl ⟨hp, rfl⟩
  · rename_i hp hn
    cases h
    exact .inr ⟨hp, hp, hn⟩
  · cases h

namespace View

variable {v w : View} {may : View → Nat → Prop}

/-- Why a frame is queued: the session pings, or a connection that has left the staged ones speaks under
its id. What the users exchange is sent for a connection that a call has given. -/
def Reason (v w : View) (out : Outgoing) : Prop :=
  out.frame.normal = out.frame ∧
    ((out.frame.flag.forConn = false ∧ out.conn = none) ∨
      ∃ n, out.conn = some n ∧ (∃ closed, w.marks[n]? = some (out.frame.id, closed)) ∧
        n ∉ w.staged.toList ∧ (out.frame.flag.isExchange = true → v.Owns n))

/-- What a step does to the write queue. -/
inductive Speaking (v w : View) : Prop
  | silent (queued : w.queued = v.queued) (started : w.started = v.started)
      (closed : w.closed = v.closed) (outbox : w.outbox = v.outbox)
  | said (out : Outgoing) (reason : Reason v w out) (running : v.closed = false)
      (queued : w.queued = v.queued ++ [out]) (started : w.started = v.started)
      (closed : w.closed = false) (outbox : v.outbox.push out.lane out = some w.outbox)
  | began (out : Outgoing) (running : v.closed = false) (queued : w.queued = v.queued)
      (started : w.started = v.started ++ [out]) (closed : w.closed = false)
      (outbox : v.outbox.take = (w.outbox, some out))
  | ended (queued : w.queued = v.queued) (started : w.started = v.started) (closed : w.closed = true)

theorem outbox_post (h : v.Coherent) (hopen : v.closed = false) (out : Outgoing) :
    v.outbox.push out.lane out = some (v.post out).outbox := by
  obtain ⟨lanes, hl, -⟩ := h.push hopen out.lane out
  simp [post, hopen, hl]

/-- A frame is posted, or dropped by a session that has ended, in a view that has the traffic and the
queue of `v`. -/
theorem Speaking.of_post (x : View) (out : Outgoing) (h : x.Coherent) (hq : x.queued = v.queued)
    (hs : x.started = v.started) (hc : x.closed = v.closed) (ho : x.outbox = v.outbox)
    (hw : w.queued = (x.post out).queued) (hws : w.started = (x.post out).started)
    (hwc : w.closed = (x.post out).closed) (hwo : w.outbox = (x.post out).outbox)
    (reason : Reason v w out) : Speaking v w := by
  cases hopen : v.closed
  · have hxopen : x.closed = false := hc.trans hopen
    refine .said out reason hopen ?_ ?_ ?_ ?_
    · rw [hw, queued_post out hxopen, hq]
    · rw [hws, started_post, hs]
    · rw [hwc, post_closed, hxopen]
    · rw [hwo, ← ho]
      exact outbox_post h hxopen out
  · have hxc : x.closed = true := hc.trans hopen
    rw [post_of_closed out hxc] at hw hws hwc hwo
    exact .silent (hw.trans hq) (hws.trans hs) (hwc.trans hc) (hwo.trans ho)

/-! ### Who has a connection -/

/-- Whoever reads or writes a connection was given it before. -/
def Asked (v : View) : Prop := ∀ c ∈ v.calls, ∀ n, c.1.conn? = some n → v.Owns n

theorem owns_setStage {n call : Nat} (h : v.Owns n) (loose : v.Loose call) (stage : CallStage) :
    (v.setStage call stage).Owns n := by
  obtain ⟨c, hc, hs⟩ := h
  obtain ⟨k, hk⟩ := List.mem_iff_getElem?.1 hc
  have hne : call ≠ k := by
    rintro rfl
    exact loose c.1 n (by rw [hk, ← hs])
  refine ⟨c, List.mem_iff_getElem?.2 ⟨k, ?_⟩, hs⟩
  simp [setStage, hne, hk]

theorem loose_of_asked {call : Nat} {request : Request} {stage : CallStage}
    (asked : v.calls[call]? = some (request, stage)) (hs : ∀ n, stage ≠ .over (.conn n)) :
    v.Loose call := by
  intro r n h
  rw [asked] at h
  exact hs n (Prod.mk.inj (Option.some.inj h)).2

/-- A connection that was given to the user stays with the user, and no call forgets what it asks for. -/
theorem Step.calls (hs : Step may v w) :
    (∀ n, v.Owns n → w.Owns n) ∧
      ∀ c ∈ w.calls, (∃ d ∈ v.calls, d.1 = c.1) ∨ ∀ n, c.1.conn? = some n → v.Owns n := by
  have hset {x : View} {call : Nat} {stage : CallStage} (hx : x.calls = v.calls)
      (loose : v.Loose call) :
      (∀ n, v.Owns n → (x.setStage call stage).Owns n) ∧
        ∀ c ∈ (x.setStage call stage).calls, (∃ d ∈ v.calls, d.1 = c.1) ∨
          ∀ n, c.1.conn? = some n → v.Owns n := by
    refine ⟨fun n h => ?_, fun c hc => .inl ?_⟩
    · have hx' : x.Owns n := by rwa [Owns, hx]
      exact owns_setStage hx' (by rwa [Loose, hx]) stage
    · obtain ⟨k, hk⟩ := List.mem_iff_getElem?.1 hc
      simp only [setStage, List.getElem?_modify, hx] at hk
      obtain ⟨d, hd, hk⟩ := Option.map_eq_some_iff.1 hk
      refine ⟨d, List.mem_of_getElem? hd, ?_⟩
      split at hk <;> rw [← hk]
  have hsame (hc : w.calls = v.calls) :
      (∀ n, v.Owns n → w.Owns n) ∧
        ∀ c ∈ w.calls, (∃ d ∈ v.calls, d.1 = c.1) ∨ ∀ n, c.1.conn? = some n → v.Owns n :=
    ⟨fun n h => by rwa [Owns, hc], fun c h => .inl ⟨c, hc ▸ h, rfl⟩⟩
  cases hs with
  | ask request held =>
    refine ⟨fun n h => ?_, fun c hc => ?_⟩
    · obtain ⟨c, hc, hs⟩ := h
      exact ⟨c, List.mem_append_left _ hc, hs⟩
    · rcases List.mem_append.1 hc with hc | hc
      · exact .inl ⟨c, hc, rfl⟩
      · obtain rfl := List.mem_singleton.1 hc
        exact .inr held
  | goOn call stage plain loose => exact hset rfl loose
  | request due asked => exact hset (by simp [addFace]) (loose_of_asked asked (by simp))
  | award asked => exact hset rfl (loose_of_asked asked (by simp))
  | refuse asked => exact hset rfl (loose_of_asked asked (by simp))
  | accept asked => exact hset rfl (loose_of_asked asked (by simp))
  | serve asked => exact hset rfl (loose_of_asked asked (by simp))
  | send asked hstage =>
    refine hset (by simp [setFace]) (loose_of_asked asked fun n => ?_)
    rcases hstage with rfl | rfl <;> simp
  | report | leave | ping | echo | overflow | turnAway | publish =>
    exact hsame (by simp [setFace, note])
  | look | waste | start | stage | stageLate | discard | enter | hollow | answer | grant | farewell
  | register | retire | close => exact hsame rfl

theorem Step.asked (hs : Step may v w) (h : v.Asked) : w.Asked := by
  obtain ⟨howns, hcalls⟩ := hs.calls
  intro c hc n hn
  refine howns n ?_
  rcases hcalls c hc with ⟨d, hd, he⟩ | hheld
  · exact h d hd n (he ▸ hn)
  · exact hheld n hn

/-! ### What a step says -/

theorem owns_of_asked (h : v.Asked) {call n : Nat} {request : Request} {stage : CallStage}
    (asked : v.calls[call]? = some (request, stage)) (hr : request.conn? = some n) : v.Owns n :=
  h _ (List.mem_of_getElem? asked) n hr

theorem not_staged_of_owns (h : v.Filed) {n : Nat} (ho : v.Owns n) : n ∉ v.staged.toList :=
  h.handed_apart n (.inl ho)

/-- Closing a connection that has left the staged ones, in a view with the traffic of `v`. -/
theorem speaking_closeConn {x : View} {n : Nat} (h : x.Coherent) (hq : x.queued = v.queued)
    (hs : x.started = v.started) (hc : x.closed = v.closed) (ho : x.outbox = v.outbox)
    (hn : n ∉ x.staged.toList) : Speaking v (x.closeConn n) := by
  rcases hf : x.faces[n]? with _ | f
  · have : x.closeConn n = x := by simp only [closeConn, hf]
    rw [this]
    exact .silent hq hs hc ho
  · cases hopen : f.closed
    · have hcl := closeConn_of_open hf hopen
      rw [hcl]
      cases hcg : f.closing
      · have hsay : x.sayClosed n f = x.post { frame := .control .connClose f.id, conn := n } := by
          simp [sayClosed, hcg]
        refine .of_post _ _ h hq hs hc ho (by rw [hsay]; rfl) (by rw [hsay]; rfl) (by rw [hsay])
          (by rw [hsay]) ⟨rfl, .inr ⟨n, rfl, ⟨true, ?_⟩, by simpa using hn, fun hx => by cases hx⟩⟩
        have hlt := (List.getElem?_eq_some_iff.1 hf).1
        simp [marks, Face.close, Face.stop, Frame.control, hlt]
      · have hsay : x.sayClosed n f = x := by simp [sayClosed, hcg]
        rw [hsay]
        exact .silent hq hs hc ho
    · rw [closeConn_of_closed hf hopen]
      exact .silent hq hs hc ho

theorem Step.speaking (hs : Step may v w) (hco : v.Coherent) (hf : v.Filed) (ha : v.Asked) :
    Speaking v w := by
  have hw := hs.filed hf
  cases hs with
  | ask | goOn | award | accept | serve | look | waste | stageLate | discard | enter | hollow | answer
  | grant | farewell | register | retire | refuse | stage => exact .silent rfl rfl rfl rfl
  | @request call id due asked running pos free =>
    refine .of_post { v.addFace (.make v.settings id (.awaited call)) with
        registry := { v.registry with entries := v.registry.entries ++ [(id, v.faces.length)] } }
      { frame := .control .newConn id, conn := some v.faces.length } ?_ rfl rfl rfl rfl rfl rfl rfl rfl ⟨rfl, .inr ⟨v.faces.length, rfl, ⟨false, ?_⟩, ?_,
        fun hx => by cases hx⟩⟩
    · exact { hco.addFace _ with
        registry := hco.registry
        no_entries := fun he => by simp [addFace, running] at he }
    · simp [marks, setStage, addFace, Face.make, Frame.control]
    · intro hmem
      have : v.faces.length ∈ v.staged.toList := by simpa [setStage, addFace] using hmem
      exact absurd (hco.staged_lt _ this) (Nat.lt_irrefl _)
  | @report call n want stage f receive credit asked hface hclosed hclosing hc =>
    have howns := owns_of_asked ha asked rfl
    refine .of_post _ _ (hco.setFace _ _) rfl rfl rfl rfl rfl rfl rfl rfl ⟨rfl, .inr ⟨n, rfl,
      ⟨f.closed, ?_⟩, ?_, fun _ => howns⟩⟩
    · rw [marks_post]
      exact marks_setFace_self hface _
    · simpa [setFace] using not_staged_of_owns hf howns
  | @send call n written credit data stage f send asked hstage hface running hacq =>
    have howns := owns_of_asked ha asked rfl
    refine .of_post _ _ (hco.setFace _ _) rfl rfl rfl rfl rfl rfl rfl rfl ⟨?_, .inr ⟨n, rfl,
      ⟨f.closed, ?_⟩, ?_, fun _ => howns⟩⟩
    · dsimp only [Frame.data]
      split <;> rfl
    · rw [marks_setStage, marks_post]
      exact marks_setFace_self hface _
    · simpa [setFace, setStage] using not_staged_of_owns hf howns
  | leave n held =>
    exact speaking_closeConn hco rfl rfl rfl rfl (not_staged_of_owns hf held)
  | overflow hseg hto hface =>
    obtain ⟨g, hg, -, hlook⟩ := exists_of_addressee hto
    exact speaking_closeConn ((hco.note _).note _) rfl rfl rfl rfl
      (hf.staged_apart _ _ (Registry.mem_of_lookup hlook))
  | @start lanes out running ht => exact .began out running rfl (started_note ..) running ht
  | ping payload =>
    exact .of_post _ _ hco rfl rfl rfl rfl rfl rfl rfl rfl ⟨rfl, .inl ⟨rfl, rfl⟩⟩
  | echo hflag hp =>
    exact .of_post _ _ (hco.note _) rfl rfl rfl rfl rfl rfl rfl rfl ⟨rfl, .inl ⟨rfl, rfl⟩⟩
  | @turnAway lanes n f running ht hface hr =>
    refine .of_post _ _ ((hco.popStaged running ht).setFace _ _) rfl rfl rfl rfl rfl rfl rfl rfl ⟨rfl,
      .inr ⟨n, rfl, ⟨true, ?_⟩, ?_, fun hx => by cases hx⟩⟩
    · have hlt := (List.getElem?_eq_some_iff.1 hface).1
      simp [marks, setFace, Face.shut, Face.close, Face.stop, Frame.control, hlt]
    · have hnodup := hf.staged_nodup
      rw [Lanes.toList_of_take ht, List.nodup_cons] at hnodup
      simpa [setFace] using hnodup.1
  | @publish n f hp hface =>
    refine .of_post { v with
      published := v.published ++ [n], acceptor := if v.closed then .over else .idle } _
      ?_ rfl rfl rfl rfl rfl rfl rfl rfl ⟨rfl, .inr ⟨n, rfl, ⟨f.closed, ?_⟩, ?_,
        fun hx => by cases hx⟩⟩
    · refine { hco with publishing_lt := fun m hm => ?_ }
      dsimp only at hm
      split at hm <;> cases hm
    · rw [marks_post]
      exact marks_getElem? hface
    · simpa using hf.handed_apart n (.inr (.inr (.inl hp)))
  | close => exact .ended rfl rfl rfl

/-! ### What a session has said -/

/-- The frames that entered the queue have the form that a reader sees, name a connection that has left
the staged ones by its id, and leave their lane in order. -/
structure Orderly (v : View) : Prop where
  normal : ∀ out ∈ v.queued, out.frame.normal = out.frame
  named : ∀ out ∈ v.queued, (out.frame.flag.forConn = false ∧ out.conn = none) ∨
    ∃ n, out.conn = some n ∧ (∃ closed, v.marks[n]? = some (out.frame.id, closed)) ∧
      n ∉ v.staged.toList
  lanes : ∀ lane, ∃ rest, onLane lane v.queued = onLane lane v.started ++ rest ∧
    (v.closed = false → rest = v.outbox.lane lane)

/-- A frame for a connection carries the id of that. -/
theorem Orderly.exists_face (h : v.Orderly) {out : Outgoing} (hout : out ∈ v.queued)
    (hfor : out.frame.flag.forConn = true) :
    ∃ n f, out.conn = some n ∧ v.faces[n]? = some f ∧ f.id = out.frame.id := by
  rcases h.named out hout with ⟨hnone, -⟩ | ⟨n, hn, ⟨c, hmark⟩, -⟩
  · rw [hfor] at hnone
    cases hnone
  · simp only [marks, List.getElem?_map, Option.map_eq_some_iff, Prod.mk.injEq] at hmark
    obtain ⟨f, hf, hid, -⟩ := hmark
    exact ⟨n, f, hn, hf, hid⟩

theorem Speaking.queued (h : Speaking v w) :
    w.queued = v.queued ∨ ∃ out, Reason v w out ∧ w.queued = v.queued ++ [out] := by
  cases h with
  | silent queued => exact .inl queued
  | said out reason _ queued => exact .inr ⟨out, reason, queued⟩
  | began _ _ queued => exact .inl queued
  | ended queued => exact .inl queued

theorem lane_of_mem_onLane {lane : Lane} {out : Outgoing} {outs : List Outgoing}
    (h : out ∈ onLane lane outs) : out.lane = lane := by
  simpa using (List.mem_filter.1 h).2

theorem Orderly.lanes_take (h : v.Orderly) (running : v.closed = false) {lanes : Lanes Outgoing}
    {out : Outgoing} (ht : v.outbox.take = (lanes, some out)) (lane : Lane) :
    onLane lane v.queued = onLane lane (v.started ++ [out]) ++ lanes.lane lane := by
  have hrest (lane : Lane) : onLane lane v.queued = onLane lane v.started ++ v.outbox.lane lane := by
    obtain ⟨rest, hq, hr⟩ := h.lanes lane
    rw [hq, hr running]
  -- The frame stands at the head of the lane it belongs to, and the other lane stays.
  have hhead (l other : Lane) (hl : v.outbox.lane l = out :: lanes.lane l) (hne : l ≠ other)
      (ho : lanes.lane other = v.outbox.lane other) (lane : Lane) (hlane : lane = l ∨ lane = other) :
      onLane lane v.queued = onLane lane (v.started ++ [out]) ++ lanes.lane lane := by
    have hmem : out ∈ onLane l v.queued := by
      rw [hrest l, hl]; simp
    have hout := lane_of_mem_onLane hmem
    rcases hlane with rfl | rfl
    · rw [hrest, hl, onLane_append]
      simp [onLane, hout]
    · rw [hrest, ho, onLane_append]
      have : onLane lane [out] = [] := by simp [onLane, hout, hne]
      rw [this, List.append_nil]
  rcases Lanes.lane_take ht with ⟨hp, hn⟩ | ⟨hp, hp', hn⟩
  · refine hhead .priority .normal hp (by simp) hn lane ?_
    cases lane <;> simp
  · refine hhead .normal .priority hn (by simp) ?_ lane ?_
    · rw [Lanes.lane, Lanes.lane, hp, hp']
    · cases lane <;> simp

theorem Step.orderly (hs : Step may v w) (hco : v.Coherent) (hf : v.Filed) (ha : v.Asked)
    (h : v.Orderly) : w.Orderly := by
  have hspeak := hs.speaking hco hf ha
  have hfiling := hs.filing fun _ _ hl => ⟨false, hf.mark_of_lookup hl⟩
  refine ⟨fun out hout => ?_, fun out hout => ?_, fun lane => ?_⟩
  · rcases hspeak.queued with hq | ⟨o, ⟨hn, -⟩, hq⟩
    · exact h.normal out (hq ▸ hout)
    · rw [hq, List.mem_append, List.mem_singleton] at hout
      rcases hout with hout | rfl
      · exact h.normal out hout
      · exact hn
  · have hold (hout : out ∈ v.queued) : (out.frame.flag.forConn = false ∧ out.conn = none) ∨
        ∃ n, out.conn = some n ∧ (∃ closed, w.marks[n]? = some (out.frame.id, closed)) ∧
          n ∉ w.staged.toList := by
      rcases h.named out hout with hp | ⟨n, hc, ⟨closed, hm⟩, hn⟩
      · exact .inl hp
      · exact .inr ⟨n, hc, (hfiling.keeps hm hn).1, (hfiling.keeps hm hn).2⟩
    rcases hspeak.queued with hq | ⟨o, ⟨-, ho⟩, hq⟩
    · exact hold (hq ▸ hout)
    · rw [hq, List.mem_append, List.mem_singleton] at hout
      rcases hout with hout | rfl
      · exact hold hout
      · rcases ho with ho | ⟨n, hc, hm, hn, -⟩
        · exact .inl ho
        · exact .inr ⟨n, hc, hm, hn⟩
  · cases hspeak with
    | silent queued started closed outbox =>
      rw [queued, started, closed, outbox]
      exact h.lanes lane
    | said out reason running queued started closed outbox =>
      obtain ⟨rest, hq, hr⟩ := h.lanes lane
      refine ⟨w.outbox.lane lane, ?_, fun _ => rfl⟩
      rw [queued, started, onLane_append, hq, Lanes.lane_push outbox, ← hr running, List.append_assoc]
      by_cases hl : out.lane = lane <;> simp [onLane, hl]
    | began out running queued started closed outbox =>
      refine ⟨w.outbox.lane lane, ?_, fun _ => rfl⟩
      rw [queued, started]
      exact h.lanes_take running outbox lane
    | ended queued started closed =>
      obtain ⟨rest, hq, -⟩ := h.lanes lane
      exact ⟨rest, by rw [queued, started, hq], fun hw => by rw [closed] at hw; cases hw⟩

end View

end StreamMux
