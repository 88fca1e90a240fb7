import StreamMux.Proofs.Windows

/-! What a session hears. A frame that its reader acts on is routed to the open connection that is
registered under its id, if there is one. A session sends data and credit only under ids of which its
peer has told it. -/

namespace StreamMux

/-- The frame is brought to a connection that there is. -/
def Flag.isRouted : Flag → Bool
  | .newConn | .ping | .pingReturn => false
  | _ => true

theorem Flag.forConn_of_isRouted {f : Flag} (h : f.isRouted = true) : f.forConn = true := by
  cases f <;> first | rfl | cases h

theorem Flag.isRouted_of_isExchange {f : Flag} (h : f.isExchange = true) : f.isRouted = true := by
  cases f <;> first | rfl | cases h

namespace View

/-! ### Stories and histories -/

/-- The frames queued for a connection. -/
def said (n : Nat) (v : View) : List Frame :=
  (v.queued.filter fun out => out.conn = some n).map (·.frame)

/-- The frames routed to a connection. -/
def heard (n : Nat) (v : View) : List Frame := history (Event.routed? n) v.deeds

/-- The segments that the receive window of a connection took. -/
def taken (n : Nat) (v : View) : List Segment := history (Event.buffered? n) v.deeds

/-- What the readers of a connection were given. -/
def given (n : Nat) (v : View) : List Taken := history (Event.handedOut? n) v.deeds

/-- The frames that the reader acted on, each with the connection that it was routed to. -/
def hearings (v : View) : List (Frame × Option Nat) := StreamMux.hearings v.deeds

variable {v w : View} {may : View → Nat → Prop} {n : Nat}

/-- A story consists of the face and of four histories. -/
theorem eq_of_story {s : Story} (h : v.story n = some s) :
    s = ⟨s.face, v.said n, v.heard n, v.taken n, v.given n⟩ := by
  have htell (f : Face) (deeds : List Event) : Story.tell n f deeds =
      ⟨f, ((history Event.queued? deeds).filter fun out => out.conn = some n).map (·.frame),
        history (Event.routed? n) deeds, history (Event.buffered? n) deeds,
        history (Event.handedOut? n) deeds⟩ := by
    induction deeds with
    | nil => rfl
    | cons e deeds ih =>
      rw [Story.tell_cons, ih]
      cases e with
      | queued out =>
        by_cases hn : out.conn = some n <;>
          simp [Story.learn, Event.conn?, Event.queued?, Event.routed?, Event.buffered?,
            Event.handedOut?, hn]
      | routed m frame | buffered m segment | handedOut m taken =>
        by_cases hn : m = n <;>
          simp [Story.learn, Event.conn?, Event.queued?, Event.routed?, Event.buffered?,
            Event.handedOut?, hn]
      | _ =>
        simp [Story.learn, Event.conn?, Event.queued?, Event.routed?, Event.buffered?,
          Event.handedOut?]
  obtain ⟨f, hf, rfl⟩ := Option.map_eq_some_iff.1 h
  rw [htell]
  rfl

/-! ### What a step hears -/

/-- What a step does to what was heard. -/
inductive Hearing (v w : View) : Prop
  | silent (hearings : w.hearings = v.hearings) (dispatched : w.dispatched = v.dispatched)
      (heard : ∀ n, w.heard n = v.heard n)
  | heard (frame : Frame) (target : Option Nat) (hearings : w.hearings = v.hearings ++ [(frame, target)])
      (dispatched : w.dispatched = v.dispatched ++ [frame])
      (heard : ∀ n, w.heard n = v.heard n ++ if target = some n then [frame] else [])
      (route : target = if frame.flag.isRouted then v.addressee frame.id else none)

namespace Hearing

variable {x : View}

theorem congr (h : Hearing v x) (hh : w.hearings = x.hearings) (hd : w.dispatched = x.dispatched)
    (hn : ∀ n, w.heard n = x.heard n) : Hearing v w := by
  cases h with
  | silent hearings dispatched heard =>
    exact .silent (hh.trans hearings) (hd.trans dispatched) fun n => (hn n).trans (heard n)
  | heard frame target hearings dispatched heard route =>
    exact .heard frame target (hh.trans hearings) (hd.trans dispatched) (fun n => (hn n).trans (heard n)) route

theorem same (hd : w.deeds = v.deeds) : Hearing v w := by
  refine .silent ?_ ?_ fun n => ?_
  · rw [View.hearings, hd]; rfl
  · rw [View.dispatched, hd]; rfl
  · rw [View.heard, hd]; rfl

/-- What is no deed changes. -/
theorem step (h : Hearing v x) (hd : w.deeds = x.deeds) : Hearing v w := by
  refine h.congr ?_ ?_ fun n => ?_
  · rw [View.hearings, hd]; rfl
  · rw [View.dispatched, hd]; rfl
  · rw [View.heard, hd]; rfl

/-- An event that is none of the reader's. -/
theorem pass (h : Hearing v x) {e : Event} (hd : ∀ frame, e ≠ .dispatched frame)
    (hr : ∀ n frame, e ≠ .routed n frame) : Hearing v (x.note e) := by
  refine h.congr ?_ ?_ fun n => ?_
  · cases e with
    | dispatched frame => exact absurd rfl (hd frame)
    | routed n frame => exact absurd rfl (hr n frame)
    | _ => rfl
  · rw [dispatched_note]
    cases e with
    | dispatched frame => exact absurd rfl (hd frame)
    | _ => simp [Event.dispatched?]
  · rw [View.heard, View.note, history_cons]
    cases e with
    | routed n frame => exact absurd rfl (hr n frame)
    | _ => simp [Event.routed?, View.heard]

theorem post (h : Hearing v x) (out : Outgoing) : Hearing v (x.post out) := by
  cases hc : x.closed
  · exact (h.pass (e := .queued out) (by simp) (by simp)).step (by simp [View.post, View.note, hc])
  · rwa [post_of_closed out hc]

theorem closeConn (h : Hearing v x) (m : Nat) : Hearing v (x.closeConn m) := by
  refine closeConn_cases (P := View.Hearing v) h fun f hf hopen => ?_
  rw [closeConn_of_open hf hopen]
  have hsay : Hearing v (x.sayClosed m f) := by
    unfold sayClosed
    split
    · exact h
    · exact h.post _
  exact hsay.step rfl

/-- A frame that is routed. -/
theorem routed {m : Nat} {frame : Frame} (hflag : frame.flag.isRouted = true)
    (hto : v.addressee frame.id = some m) :
    Hearing v ((v.note (.dispatched frame)).note (.routed m frame)) := by
  refine .heard frame (some m) ?_ ?_ (fun n => ?_) (by rw [if_pos hflag, hto])
  · simp [View.hearings, note, StreamMux.hearings]
  · simp [View.dispatched, note, Event.dispatched?]
  · by_cases hn : m = n <;> simp [View.heard, note, Event.routed?, hn]

/-- A frame that is routed to no connection. -/
theorem lost {frame : Frame}
    (hto : frame.flag.isRouted = true → v.addressee frame.id = none) :
    Hearing v (v.note (.dispatched frame)) := by
  refine .heard frame none ?_ ?_ (fun n => ?_) ?_
  · simp [View.hearings, note, StreamMux.hearings]
  · simp [View.dispatched, note, Event.dispatched?]
  · simp [View.heard, note, Event.routed?]
  · split
    · rename_i hflag
      exact (hto hflag).symm
    · rfl

end Hearing

theorem isRouted_of_isSegment {frame : Frame} {data : Bytes} {part : Bool}
    (h : IsSegment frame data part) : frame.flag.isRouted = true := by
  rw [h.1]
  cases part <;> rfl

theorem Step.hearing (hs : Step may v w) : Hearing v w := by
  have hnew {frame : Frame} (f : Face) (hflag : frame.flag = .newConn) :
      Hearing v (((v.addFace f).note (.dispatched frame)).note (.staged v.faces.length)) := by
    refine .heard frame none ?_ ?_ (fun n => ?_) (by simp [hflag, Flag.isRouted])
    · simp [View.hearings, note, addFace, StreamMux.hearings]
    · simp [View.dispatched, note, addFace, Event.dispatched?]
    · simp [View.heard, note, addFace, Event.routed?]
  cases hs with
  | ask | goOn | award | accept | refuse | look | waste | register | retire | close => exact .same rfl
  | request =>
    refine Hearing.step (Hearing.post ?_ _) rfl
    exact .same rfl
  | send =>
    refine Hearing.step (Hearing.post ?_ _) rfl
    exact .same rfl
  | report | ping | turnAway | publish =>
    refine Hearing.post ?_ _
    exact .same rfl
  | serve => exact (Hearing.pass (.same rfl) (by simp) (by simp)).step rfl
  | leave n => exact Hearing.closeConn (.same rfl) n
  | start =>
    refine Hearing.pass ?_ (by simp) (by simp)
    exact .same rfl
  | @stage frame hflag running => exact (hnew (.make v.settings frame.id .unasked) hflag).step rfl
  | stageLate hflag => exact hnew _ hflag
  | echo hflag hp => exact (Hearing.lost (by simp [hflag, Flag.isRouted])).post _
  | @discard frame hflag hto =>
    refine .lost fun hr => hto ?_ ?_ <;> (intro hf; rw [hf] at hr; cases hr)
  | enter hseg hto hf hw =>
    refine Hearing.pass ?_ (by simp) (by simp)
    exact (Hearing.routed (isRouted_of_isSegment hseg) hto).step rfl
  | overflow hseg hto hf => exact (Hearing.routed (isRouted_of_isSegment hseg) hto).closeConn _
  | @hollow frame m hflag hp hto =>
    refine .routed ?_ hto
    cases hf : frame.flag <;> simp_all [Flag.isData, Flag.isRouted]
  | @answer frame accepted m f hflag hto hf =>
    exact (Hearing.routed (by rw [hflag]; cases accepted <;> rfl) hto).step rfl
  | grant hflag hto hf => exact (Hearing.routed (by rw [hflag]; rfl) hto).step rfl
  | farewell hflag hto hf => exact (Hearing.routed (by rw [hflag]; rfl) hto).step rfl

end View

/-! ### Ids that the peer knows -/

/-- The connection came from the peer, or the peer has accepted it. -/
def Reply.isSettled : Reply → Bool
  | .unasked | .given true => true
  | _ => false

theorem Story.Step.settled_reply {settings : Settings} {ended : Bool} {s s' : Story}
    (hs : Story.Step settings ended s s') :
    (s.face.reply.isSettled = true → s'.face.reply.isSettled = true) ∧
      (s'.face.reply.isSettled = true → s.face.reply.isSettled = true ∨
        ∃ frame, frame.flag.forConn = true ∧ frame.id = s'.face.id ∧ s'.heard = s.heard ++ [frame]) := by
  have hlose : s.face.reply.lose.isSettled = s.face.reply.isSettled := by
    cases s.face.reply <;> rfl
  cases hs with
  | serve | look | waste | enter | hollow | grant | farewell => exact ⟨id, .inl⟩
  | report | send | confirm =>
    rw [Story.face_say]
    exact ⟨id, .inl⟩
  | overflow | leave =>
    rw [Story.face_leave]
    exact ⟨id, .inl⟩
  | shut =>
    show (s.face.reply.isSettled = true → s.face.reply.lose.isSettled = true) ∧
      (s.face.reply.lose.isSettled = true → _)
    rw [hlose]
    exact ⟨id, .inl⟩
  | deny =>
    rw [Story.face_say]
    show (s.face.reply.isSettled = true → s.face.reply.lose.isSettled = true) ∧
      (s.face.reply.lose.isSettled = true → _)
    rw [hlose]
    exact ⟨id, .inl⟩
  | @answer frame accepted hid hopen hflag =>
    refine ⟨fun h => ?_, fun _ => .inr ⟨frame, ?_, hid, rfl⟩⟩
    · show (s.face.reply.answer accepted).isSettled = true
      cases hr : s.face.reply <;> simp_all [Reply.answer, Reply.isSettled]
    · rw [hflag]
      cases accepted <;> rfl

namespace View

variable {v w : View} {may : View → Nat → Prop} {n : Nat}

/-- The peer has used this id. -/
def Knows (id : Int32) (v : View) : Prop := ∃ frame ∈ v.dispatched, frame.id = id ∧ frame.flag.forConn = true

/-- A connection that the user has, or that comes from the peer and is on its way to the user. -/
def Held (n : Nat) (v : View) : Prop :=
  v.Owns n ∨ n ∈ v.published ∨ v.acceptor = .publishing n ∨ n ∈ v.staged.toList

theorem Held.of_eq (h : w.Held n) (hc : w.calls = v.calls) (hp : w.published = v.published)
    (ha : w.acceptor = v.acceptor) (hs : w.staged.toList = v.staged.toList) : v.Held n := by
  simpa only [Held, Owns, hc, hp, ha, hs] using h

theorem Held.of_setStage {call : Nat} {stage : CallStage} (h : (v.setStage call stage).Held n) :
    v.Held n ∨ stage = .over (.conn n) := by
  rcases h with ⟨c, hc, hs⟩ | hp | ha | hst
  · obtain ⟨k, hk⟩ := List.mem_iff_getElem?.1 hc
    simp only [setStage, List.getElem?_modify] at hk
    obtain ⟨d, hd, hk⟩ := Option.map_eq_some_iff.1 hk
    split at hk
    · right; rw [← hs, ← hk]
    · left; left; exact ⟨d, List.mem_of_getElem? hd, by rw [hk, hs]⟩
  · exact .inl (.inr (.inl hp))
  · exact .inl (.inr (.inr (.inl ha)))
  · exact .inl (.inr (.inr (.inr hst)))

/-- What a call that begins holds was held before. -/
theorem Held.of_ask {request : Request} (h : Held n { v with calls := v.calls ++ [(request, .fresh)] }) :
    v.Held n := by
  rcases h with ⟨c, hc, hs⟩ | h
  · rcases List.mem_append.1 hc with hc | hc
    · exact .inl ⟨c, hc, hs⟩
    · rw [List.mem_singleton.1 hc] at hs
      cases hs
  · exact .inr h

/-- An accept takes what was ready for it. -/
theorem Held.of_accept {call m : Nat} {rest : List Nat} (hp : v.published = m :: rest)
    (h : (({ v with published := rest }).setStage call (.over (.conn m))).Held n) : v.Held n := by
  rcases h.of_setStage with h | h
  · rcases h with h | h | h
    · exact .inl h
    · exact .inr (.inl (by rw [hp]; exact List.mem_cons_of_mem _ h))
    · exact .inr (.inr h)
  · cases h
    exact .inr (.inl (by rw [hp]; exact List.mem_cons_self))

/-- A connection that is staged is one that the peer asked for. -/
theorem Held.of_stage {frame : Frame} (h : ((({ v.addFace (.make v.settings frame.id .unasked) with
      staged := { v.staged with normal := v.staged.normal ++ [v.faces.length] } }).note
        (.dispatched frame)).note (.staged v.faces.length)).Held n) : v.Held n ∨ n = v.faces.length := by
  rcases h with h | h | h | h
  · exact .inl (.inl h)
  · exact .inl (.inr (.inl h))
  · exact .inl (.inr (.inr (.inl h)))
  · simp only [note, addFace, Lanes.toList, List.mem_append, List.mem_singleton] at h
    rcases h with h | h | rfl
    · exact .inl (.inr (.inr (.inr (List.mem_append_left _ h))))
    · exact .inl (.inr (.inr (.inr (List.mem_append_right _ h))))
    · exact .inr rfl

/-- A connection goes from the staged ones to the acceptor, and from there to the published ones. -/
theorem Held.of_register {lanes : Lanes Nat} {registry : Registry Nat} {m : Nat}
    (ht : v.staged.take = (lanes, some m))
    (h : Held n { v with staged := lanes, registry, acceptor := .publishing m }) : v.Held n := by
  have hlist := Lanes.toList_of_take ht
  rcases h with h | h | h | h
  · exact .inl h
  · exact .inr (.inl h)
  · cases h
    exact .inr (.inr (.inr (by rw [hlist]; exact List.mem_cons_self)))
  · exact .inr (.inr (.inr (by rw [hlist]; exact List.mem_cons_of_mem _ h)))

theorem Held.of_publish {m : Nat} {out : Outgoing} (hp : v.acceptor = .publishing m)
    (h : (({ v with
      published := v.published ++ [m]
      acceptor := if v.closed then .over else .idle }).post out).Held n) : v.Held n := by
  rcases h with h | h | h | h
  · exact .inl (by simpa [Owns] using h)
  · rw [post_published, List.mem_append, List.mem_singleton] at h
    rcases h with h | rfl
    · exact .inr (.inl h)
    · exact .inr (.inr (.inl hp))
  · rw [post_acceptor] at h
    dsimp only at h
    split at h <;> cases h
  · exact .inr (.inr (.inr (by simpa using h)))

/-- Whatever is held was held before, or the peer has given its word for it. -/
theorem Step.held (hs : Step may v w) (h : w.Held n) :
    v.Held n ∨ ∃ f, w.faces[n]? = some f ∧ f.reply.isSettled = true := by
  cases hs with
  | ask request => exact .inl h.of_ask
  | goOn call stage plain =>
    rcases h.of_setStage with h | rfl
    · exact .inl h
    · cases plain
  | request =>
    rcases h.of_setStage with h | h
    · exact .inl (h.of_eq (by simp [addFace]) (by simp [addFace]) (by simp [addFace]) (by simp [addFace]))
    · cases h
  | @award call m request due f asked hf given =>
    rcases h.of_setStage with h | h
    · exact .inl h
    · cases h
      exact .inr ⟨f, hf, by rw [given]; rfl⟩
  | accept asked hp => exact .inl (h.of_accept hp)
  | serve | refuse =>
    rcases h.of_setStage with h | h
    · exact .inl h
    · cases h
  | send =>
    rcases h.of_setStage with h | h
    · exact .inl (h.of_eq (by simp [setFace]) (by simp [setFace]) (by simp [setFace]) (by simp [setFace]))
    · cases h
  | look | waste | start | stageLate | discard | enter | hollow | answer | grant | farewell =>
    exact .inl (h.of_eq rfl rfl rfl rfl)
  | report | leave | ping | echo | overflow =>
    exact .inl (h.of_eq (by simp [setFace, note]) (by simp [setFace, note]) (by simp [setFace, note])
      (by simp [setFace, note]))
  | @stage frame hflag running =>
    refine h.of_stage.imp_right ?_
    rintro rfl
    exact ⟨.make v.settings frame.id .unasked, by simp [note, addFace], rfl⟩
  | register running ht => exact .inl (h.of_register ht)
  | @turnAway lanes m f running ht hf hr =>
    have hlist := Lanes.toList_of_take ht
    rcases h with h | h | h | h
    · exact .inl (.inl (by simpa [Owns, setFace] using h))
    · exact .inl (.inr (.inl (by simpa [setFace] using h)))
    · exact .inl (.inr (.inr (.inl (by simpa [setFace] using h))))
    · refine .inl (.inr (.inr (.inr ?_)))
      rw [hlist]
      exact List.mem_cons_of_mem _ (by simpa [setFace] using h)
  | publish hp => exact .inl (h.of_publish hp)
  | retire =>
    rcases h with h | h | h | h
    · exact .inl (.inl h)
    · exact .inl (.inr (.inl h))
    · cases h
    · exact .inl (.inr (.inr (.inr h)))
  | close =>
    rcases h with h | h | h | h
    · exact .inl (.inl h)
    · exact .inl (.inr (.inl h))
    · exact .inl (.inr (.inr (.inl h)))
    · cases h

/-- The peer has used the id of every connection that it asked for or answered, the user has no other
ones, and nothing is exchanged under other ids. -/
structure Vouched (v : View) : Prop where
  faces : ∀ f ∈ v.faces, f.reply.isSettled = true → v.Knows f.id
  held : ∀ n, v.Held n → ∃ f, v.faces[n]? = some f ∧ f.reply.isSettled = true
  said : ∀ out ∈ v.queued, out.frame.flag.isExchange = true → v.Knows out.frame.id

theorem Step.knows (hs : Step may v w) {id : Int32} (h : v.Knows id) : w.Knows id := by
  obtain ⟨frame, hf, hid⟩ := h
  refine ⟨frame, ?_, hid⟩
  cases hs.hearing with
  | silent hearings dispatched heard => rwa [dispatched]
  | heard frame target hearings dispatched heard route =>
    rw [dispatched]
    exact List.mem_append_left _ hf

theorem exists_story {f : Face} (h : v.faces[n]? = some f) : ∃ s, v.story n = some s ∧ s.face = f :=
  ⟨_, story_of_face h, Story.face_tell ..⟩

theorem Step.vouched (hs : Step may v w) (hco : v.Coherent) (hfiled : v.Filed) (ha : v.Asked)
    (hroot : v.Rooted) (h : v.Vouched) : w.Vouched := by
  have hfaces (n : Nat) (f : Face) : w.faces[n]? = some f → f.reply.isSettled = true → w.Knows f.id := by
    intro hf hset
    obtain ⟨s', hs', rfl⟩ := exists_story hf
    rcases (hs.continues hfiled hroot n).comes_from hs' with ⟨s, hs₀, hstep⟩ | ⟨hborn, hasked⟩
    · have hface : s.face ∈ v.faces := List.mem_of_getElem? (face_of_story hs₀)
      rcases hstep with rfl | hstep
      · exact hs.knows (h.faces _ hface hset)
      · rcases hstep.settled_reply.2 hset with hset | ⟨frame, hflag, hid, hheard⟩
        · rw [hstep.keeps.1]
          exact hs.knows (h.faces _ hface hset)
        · rw [eq_of_story hs₀, eq_of_story hs'] at hheard
          dsimp only at hheard
          cases hs.hearing with
          | silent hearings dispatched heard =>
            rw [heard n] at hheard
            exact absurd hheard (by simp)
          | heard g target hearings dispatched heard route =>
            rw [heard n] at hheard
            split at hheard
            · obtain rfl : g = frame := by simpa using hheard
              exact ⟨g, by rw [dispatched]; simp, hid, hflag⟩
            · exact absurd hheard (by simp)
    · have hunasked : s'.face.reply = .unasked := by
        cases hborn with
        | own id call => cases hset
        | peer id => rfl
        | late id => rfl
      obtain ⟨frame, hflag, hid, hmem⟩ := hasked hunasked
      exact ⟨frame, mem_history.2 ⟨_, hmem, rfl⟩, hid, by rw [hflag]; rfl⟩
  have hheld (n : Nat) : w.Held n → ∃ f, w.faces[n]? = some f ∧ f.reply.isSettled = true := by
    intro hn
    rcases hs.held hn with hn | hn
    · obtain ⟨f, hf, hset⟩ := h.held n hn
      obtain ⟨s, hs₀, rfl⟩ := exists_story hf
      obtain ⟨s', hs', hstep⟩ := (hs.continues hfiled hroot n).goes_on hs₀
      refine ⟨s'.face, face_of_story hs', ?_⟩
      rcases hstep with rfl | hstep
      · exact hset
      · exact hstep.settled_reply.1 hset
    · exact hn
  refine ⟨fun f hf => ?_, hheld, fun out hout hx => ?_⟩
  · obtain ⟨n, hn⟩ := List.mem_iff_getElem?.1 hf
    exact hfaces n f hn
  · rcases (hs.speaking hco hfiled ha).queued with hq | ⟨o, ⟨-, ho⟩, hq⟩
    · exact hs.knows (h.said out (hq ▸ hout) hx)
    · rw [hq, List.mem_append, List.mem_singleton] at hout
      rcases hout with hout | rfl
      · exact hs.knows (h.said out hout hx)
      · rcases ho with ⟨hc, -⟩ | ⟨n, -, ⟨closed, hmark⟩, -, howns⟩
        · rw [Flag.forConn_of_isExchange hx] at hc
          cases hc
        · obtain ⟨f, hf, hset⟩ := hheld n (.inl (hs.calls.1 n (howns hx)))
          rw [marks_getElem? hf] at hmark
          rw [← (Prod.mk.inj (Option.some.inj hmark)).1]
          exact hfaces n f hf hset

end View

end StreamMux
