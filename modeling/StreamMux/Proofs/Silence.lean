import StreamMux.Proofs.Output
import StreamMux.Proofs.Seating

/-! Silence after a close. A connection that has said that it is closed, or that has heard so from its peer,
queues no more data, no more credit and no more word of a close. Credit overtakes other frames in the write
queue, but it overtakes no word that was queued before it, so that the wire keeps this order too. This is so where
a fiber runs from one wait to the next and no other comes between; what is left of it where they do is in
`StreamMux.Proofs.Strands`. -/

namespace StreamMux

/-- What a connection says in its life: its data, its credit, and the word that it is closed. -/
def Flag.isVoice (f : Flag) : Bool := f.isExchange || f = .connClose

theorem Flag.isVoice_cases {f : Flag} (h : f.isVoice = true) : f.isExchange = true ∨ f = .connClose := by
  simpa [isVoice] using h

theorem Flag.forConn_of_isVoice {f : Flag} (h : f.isVoice = true) : f.forConn = true := by
  rcases Flag.isVoice_cases h with h | rfl
  · exact Flag.forConn_of_isExchange h
  · rfl

namespace Event

/-- The connection that speaks. -/
def speaker? : Event → Option Nat
  | .queued out => if out.frame.flag.isVoice then out.conn else none
  | _ => none

/-- The connection that is closed from here on: it says so, or hears it from its peer. -/
def hushed? : Event → Option Nat
  | .queued out => if out.frame.flag = .connClose then out.conn else none
  | .routed n frame => if frame.flag = .connClose then some n else none
  | _ => none

/-- The later event lets the connection be silent that the earlier one closed. -/
def Heeds (later earlier : Event) : Prop := ∀ n, earlier.hushed? = some n → later.speaker? ≠ some n

/-- Nobody speaks, and nobody is closed. -/
def Mute (e : Event) : Prop := e.speaker? = none ∧ e.hushed? = none

theorem mute_queued {out : Outgoing} (h : out.frame.flag.isVoice = false) : (Event.queued out).Mute := by
  simp only [Flag.isVoice, Bool.or_eq_false_iff, decide_eq_false_iff_not] at h
  exact ⟨by simp [speaker?, Flag.isVoice, h], by simp [hushed?, h]⟩

theorem mute_routed {n : Nat} {frame : Frame} (h : frame.flag ≠ .connClose) : (Event.routed n frame).Mute :=
  ⟨rfl, if_neg h⟩

end Event

/-- The connection is closed, on this side or by its peer. -/
def Face.isQuiet (f : Face) : Bool := f.closed || f.closing

/-- A connection that is closed stays so, on either side. -/
theorem Story.Step.stays_quiet {settings : Settings} {ended : Bool} {s s' : Story}
    (hs : Story.Step settings ended s s') (h : s.face.isQuiet = true) : s'.face.isQuiet = true := by
  rcases Bool.or_eq_true_iff.1 h with hclosed | hclosing
  · exact Bool.or_eq_true_iff.2 (.inl (hs.keeps.2.1 hclosed))
  · refine Bool.or_eq_true_iff.2 (.inr ?_)
    cases hs with
    | serve | look | waste | shut | enter | hollow | answer | grant => exact hclosing
    | report | send | confirm | deny =>
      rw [Story.face_say]
      exact hclosing
    | farewell => rfl
    | overflow | leave =>
      rw [Story.face_leave]
      exact hclosing

namespace View

variable {v w x : View} {n : Nat} {may : View → Nat → Prop} {settings : Settings}

/-! ### What a step says -/

/-- What a step adds to the traffic: at most one event in which a connection speaks or is closed. -/
inductive Voicing (v w : View) : Prop
  | mute (es : List Event) (mute : ∀ e ∈ es, e.Mute) (deeds : w.deeds = es ++ v.deeds)
  /-- An open connection speaks. -/
  | spoke (out : Outgoing) (n : Nat) (f g : Face) (es : List Event) (mute : ∀ e ∈ es, e.Mute)
      (deeds : w.deeds = .queued out :: (es ++ v.deeds)) (conn : out.conn = some n)
      (face : v.faces[n]? = some f) (loud : f.isQuiet = false) (after : w.faces[n]? = some g)
      (quiet : out.frame.flag = .connClose → g.isQuiet = true)
  /-- A connection hears that it is closed. -/
  | told (n : Nat) (frame : Frame) (g : Face) (es : List Event) (mute : ∀ e ∈ es, e.Mute)
      (deeds : w.deeds = .routed n frame :: (es ++ v.deeds)) (after : w.faces[n]? = some g)
      (quiet : g.isQuiet = true)

theorem Voicing.silent (deeds : w.deeds = v.deeds) : Voicing v w := .mute [] (by simp) deeds

/-- A frame that is no voice is queued, or dropped, after events in which nobody speaks. -/
theorem Voicing.of_post (es : List Event) {out : Outgoing} (hw : w.deeds = (x.post out).deeds)
    (hx : x.deeds = es ++ v.deeds) (hes : ∀ e ∈ es, e.Mute) (hout : out.frame.flag.isVoice = false) :
    Voicing v w := by
  cases hc : x.closed
  · refine .mute (.queued out :: es) (fun e he => ?_) (by simp [hw, post, hc, hx])
    rcases List.mem_cons.1 he with rfl | he
    · exact Event.mute_queued hout
    · exact hes e he
  · exact .mute es hes (by rw [hw, post_of_closed out hc, hx])

/-- An open connection speaks, unless the session has ended. -/
theorem Voicing.of_voice {f g : Face} {out : Outgoing} (es : List Event) (hw : w.deeds = (x.post out).deeds)
    (hx : x.deeds = es ++ v.deeds) (hes : ∀ e ∈ es, e.Mute) (conn : out.conn = some n)
    (face : v.faces[n]? = some f) (loud : f.isQuiet = false) (after : w.faces[n]? = some g)
    (quiet : out.frame.flag = .connClose → g.isQuiet = true) : Voicing v w := by
  cases hc : x.closed
  · exact .spoke out n f g es hes (by simp [hw, post, hc, hx]) conn face loud after quiet
  · exact .mute es hes (by rw [hw, post_of_closed out hc, hx])

theorem voicing_closeConn (es : List Event) (hx : x.deeds = es ++ v.deeds) (hes : ∀ e ∈ es, e.Mute)
    (hfaces : x.faces = v.faces) : Voicing v (x.closeConn n) := by
  refine closeConn_cases (P := Voicing v) (.mute es hes hx) fun f hf hopen => ?_
  rw [closeConn_of_open hf hopen]
  have hlt := (List.getElem?_eq_some_iff.1 hf).1
  cases hclosing : f.closing
  · have hsay : x.sayClosed n f = x.post { frame := .control .connClose f.id, conn := n } := by
      simp [sayClosed, hclosing]
    rw [hsay]
    refine .of_voice (g := f.close) es rfl hx hes rfl (hfaces ▸ hf) (by simp [Face.isQuiet, hopen, hclosing]) ?_
      fun _ => rfl
    exact List.getElem?_set_self hlt
  · have hsay : x.sayClosed n f = x := by simp [sayClosed, hclosing]
    rw [hsay]
    exact .mute es hes hx

theorem Step.voicing (hs : Step may v w) (h : v.Sound settings) : Voicing v w := by
  have hrouted {n : Nat} {frame : Frame} (hf : frame.flag ≠ .connClose) :
      ∀ e ∈ [Event.routed n frame, .dispatched frame], e.Mute := by
    simp only [List.mem_cons, List.not_mem_nil, or_false, forall_eq_or_imp, forall_eq]
    exact ⟨Event.mute_routed hf, rfl, rfl⟩
  have hsegment {frame : Frame} {data : Bytes} {part : Bool} (hseg : IsSegment frame data part) :
      frame.flag ≠ .connClose := by
    rw [hseg.1]
    cases part <;> decide
  have hstaged (frame : Frame) (n : Nat) : ∀ e ∈ [Event.staged n, .dispatched frame], e.Mute := by
    simp [Event.Mute, Event.speaker?, Event.hushed?]
  have hone {e : Event} (he : e.Mute) : ∀ d ∈ [e], d.Mute := by simpa using he
  cases hs with
  | ask | goOn | award | refuse | accept | look | waste | register | retire | close => exact .silent rfl
  | serve => exact .mute [.handedOut _ _] (hone ⟨rfl, rfl⟩) rfl
  | start => exact .mute [.started _] (hone ⟨rfl, rfl⟩) rfl
  | discard => exact .mute [.dispatched _] (hone ⟨rfl, rfl⟩) rfl
  | request | ping | turnAway | publish => exact .of_post [] rfl rfl (by simp) rfl
  | @echo frame payload => exact .of_post [.dispatched frame] rfl rfl (hone ⟨rfl, rfl⟩) rfl
  | stage => exact .mute [.staged _, .dispatched _] (hstaged _ _) rfl
  | stageLate => exact .mute [.staged _, .dispatched _] (hstaged _ _) rfl
  | @report call n want stage f receive credit asked hf hclosed hclosing hc =>
    have hlt := (List.getElem?_eq_some_iff.1 hf).1
    refine .of_voice (g := { f with receive }) [] rfl rfl (by simp) rfl hf
      (by simp [Face.isQuiet, hclosed, hclosing]) ?_ fun he => by cases he
    rw [post_faces]
    exact List.getElem?_set_self hlt
  | @send call n written credit data stage f send asked hstage hf running ha =>
    have hlt := (List.getElem?_eq_some_iff.1 hf).1
    have hloud : f.isQuiet = false := by
      obtain ⟨s, hs₀, rfl⟩ := exists_story hf
      exact (h.stories n s hs₀).send_closed.symm.trans (SendWindow.acquire_some ha).1
    refine .of_voice (g := { f with send }) [] rfl rfl (by simp) rfl hf hloud ?_ fun he => ?_
    · show ((v.setFace n _).post _).faces[n]? = _
      rw [post_faces]
      exact List.getElem?_set_self hlt
    · dsimp only [Frame.data] at he
      split at he <;> cases he
  | leave n => exact voicing_closeConn [] rfl (by simp) rfl
  | overflow hseg => exact voicing_closeConn [.routed _ _, .dispatched _] rfl (hrouted (hsegment hseg)) rfl
  | enter hseg =>
    refine .mute [.buffered _ _, .routed _ _, .dispatched _] (fun e he => ?_) rfl
    rcases List.mem_cons.1 he with rfl | he
    · exact ⟨rfl, rfl⟩
    · exact hrouted (hsegment hseg) e he
  | hollow hflag =>
    refine .mute [.routed _ _, .dispatched _] (hrouted fun hc => ?_) rfl
    rw [hc] at hflag
    cases hflag
  | @answer frame accepted n f hflag =>
    refine .mute [.routed _ _, .dispatched _] (hrouted fun hc => ?_) rfl
    rw [hc] at hflag
    cases accepted <;> cases hflag
  | grant hflag => exact .mute [.routed _ _, .dispatched _] (hrouted fun hc => by rw [hc] at hflag; cases hflag) rfl
  | @farewell frame n f hflag hto hf =>
    have hlt := (List.getElem?_eq_some_iff.1 hf).1
    exact .told n frame f.closeByPeer [.dispatched frame] (hone ⟨rfl, rfl⟩) rfl (List.getElem?_set_self hlt)
      (by simp [Face.isQuiet, Face.closeByPeer])

/-! ### Who was closed is silent -/

/-- Nobody has spoken after it was closed, and whoever was closed is so still. -/
structure Hushed (v : View) : Prop where
  heeds : v.deeds.Pairwise Event.Heeds
  quiet : ∀ e ∈ v.deeds, ∀ n, e.hushed? = some n → ∃ f, v.faces[n]? = some f ∧ f.isQuiet = true

theorem heeds_of_mute {es deeds : List Event} (hes : ∀ e ∈ es, e.Mute) (h : deeds.Pairwise Event.Heeds) :
    (es ++ deeds).Pairwise Event.Heeds := by
  have hmute (e : Event) (he : e ∈ es) (d : Event) : e.Heeds d := fun n _ hn => by
    rw [(hes e he).1] at hn
    cases hn
  exact List.pairwise_append.2
    ⟨List.pairwise_of_forall_mem_list fun e he d _ => hmute e he d, h, fun e he d _ => hmute e he d⟩

theorem Step.hushed (hs : Step may v w) (h : v.Sound settings) (hh : v.Hushed) : w.Hushed := by
  have hstays {n : Nat} {f : Face} (hf : v.faces[n]? = some f) (hq : f.isQuiet = true) :
      ∃ g, w.faces[n]? = some g ∧ g.isQuiet = true := by
    obtain ⟨s, s', -, rfl, hs', hstep⟩ := hs.follows h hf
    refine ⟨s'.face, face_of_story hs', ?_⟩
    rcases hstep with rfl | hstep
    · exact hq
    · exact hstep.stays_quiet hq
  have hold (e : Event) (he : e ∈ v.deeds) (n : Nat) (hn : e.hushed? = some n) :
      ∃ g, w.faces[n]? = some g ∧ g.isQuiet = true := by
    obtain ⟨f, hf, hq⟩ := hh.quiet e he n hn
    exact hstays hf hq
  have holder {es : List Event} (hes : ∀ e ∈ es, e.Mute) (e : Event) (he : e ∈ es ++ v.deeds) (n : Nat)
      (hn : e.hushed? = some n) : ∃ g, w.faces[n]? = some g ∧ g.isQuiet = true := by
    rcases List.mem_append.1 he with he | he
    · rw [(hes e he).2] at hn
      cases hn
    · exact hold e he n hn
  cases hs.voicing h with
  | mute es mute deeds =>
    refine ⟨by rw [deeds]; exact heeds_of_mute mute hh.heeds, fun e he n hn => ?_⟩
    exact holder mute e (deeds ▸ he) n hn
  | spoke out n f g es mute deeds conn face loud after quiet =>
    refine ⟨?_, fun e he m hm => ?_⟩
    · rw [deeds]
      refine List.pairwise_cons.2 ⟨fun e he m hm hspeaks => ?_, heeds_of_mute mute hh.heeds⟩
      -- Whoever speaks now is open, so nothing has closed it.
      obtain rfl : n = m := by
        simp only [Event.speaker?] at hspeaks
        split at hspeaks
        · exact Option.some.inj (conn.symm.trans hspeaks)
        · cases hspeaks
      rcases List.mem_append.1 he with he | he
      · rw [(mute e he).2] at hm
        cases hm
      · obtain ⟨f', hf', hq⟩ := hh.quiet e he n hm
        cases face.symm.trans hf'
        rw [loud] at hq
        cases hq
    · rcases List.mem_cons.1 (deeds ▸ he) with rfl | he
      · simp only [Event.hushed?] at hm
        split at hm
        · rename_i hflag
          cases conn.symm.trans hm
          exact ⟨g, after, quiet hflag⟩
        · cases hm
      · exact holder mute e he m hm
  | told n frame g es mute deeds after quiet =>
    refine ⟨?_, fun e he m hm => ?_⟩
    · rw [deeds]
      exact List.pairwise_cons.2 ⟨fun e he m hm hspeaks => (by cases hspeaks), heeds_of_mute mute hh.heeds⟩
    · rcases List.mem_cons.1 (deeds ▸ he) with rfl | he
      · simp only [Event.hushed?] at hm
        split at hm
        · cases hm
          exact ⟨g, after, quiet⟩
        · cases hm
      · exact holder mute e he m hm

end View

/-! ### The order on the wire -/

/-- The earlier frame is not the word that a connection is closed of which the later one tells. -/
def Outgoing.Allows (earlier later : Outgoing) : Prop :=
  earlier.frame.flag = .connClose → later.frame.flag.isVoice = true → later.conn ≠ earlier.conn

/-- What a queue holds after a push is the new item, or was there before. -/
theorem Lanes.mem_of_push {α : Type} {l l' : Lanes α} {lane : Lane} {x y : α} (h : l.push lane x = some l')
    (hy : y ∈ l'.toList) : y ∈ l.toList ∨ y = x := by
  unfold push at h
  split at h
  · cases h
  · cases lane <;> cases h <;> simp only [toList, List.mem_append, List.mem_singleton] at hy ⊢ <;> tauto

namespace View

variable {v w : View} {may : View → Nat → Prop} {settings : Settings}

theorem Hushed.queued (h : v.Hushed) (ho : v.Orderly) : v.queued.Pairwise Outgoing.Allows := by
  rw [View.queued, history, List.pairwise_reverse, List.pairwise_filterMap]
  refine h.heeds.imp_of_mem fun {later earlier} _ hearlier hheeds out hout close hclose hflag hvoice hconn => ?_
  cases later <;> cases hout
  cases earlier <;> cases hclose
  have hmem : close ∈ v.queued := mem_history.2 ⟨_, hearlier, rfl⟩
  obtain ⟨n, f, hn, -⟩ := ho.exists_face hmem (by rw [hflag]; rfl)
  refine hheeds n ?_ ?_
  · simp [Event.hushed?, hflag, hn]
  · simp [Event.speaker?, hvoice, hconn, hn]

/-- What was closed by a frame that the writer took says nothing more, neither there nor in the queue. -/
structure Ordered (v : View) : Prop where
  started : v.started.Pairwise Outgoing.Allows
  waiting : ∀ earlier ∈ v.started, ∀ later ∈ v.outbox.toList, earlier.Allows later

/-- A frame that tells of a close leaves nothing behind it in the queue that its connection says. -/
theorem Orderly.allows_of_take (h : v.Orderly) (hco : v.Coherent) (hq : v.queued.Pairwise Outgoing.Allows)
    (running : v.closed = false) {lanes : Lanes Outgoing} {out later : Outgoing}
    (ht : v.outbox.take = (lanes, some out)) (hlater : later ∈ lanes.toList) : out.Allows later := by
  intro hflag
  have hnormal : out.lane = .normal := by simp [Outgoing.lane, hflag, Flag.isPriority]
  have hall := (h.first_of_take hco ht).2 hnormal
  have hone : onLane .normal v.outbox.toList = out :: lanes.toList := by
    rw [onLane, List.filter_eq_self.2 fun o ho => by simp [hall o ho]]
    exact Lanes.toList_of_take ht
  have hsub : (out :: lanes.toList).Sublist v.queued := by
    obtain ⟨rest, hrest, hr⟩ := h.lanes .normal
    rw [hr running, ← h.onLane_outbox hco, hone] at hrest
    have hlane : (onLane .normal v.queued).Sublist v.queued := List.filter_sublist
    exact (List.sublist_append_right _ _).trans (hrest ▸ hlane)
  exact List.rel_of_pairwise_cons (hq.sublist hsub) hlater hflag

theorem Step.ordered (hs : Step may v w) (h : v.Sound settings) (hq : v.queued.Pairwise Outgoing.Allows)
    (hq' : w.queued.Pairwise Outgoing.Allows) (ho : v.Ordered) : w.Ordered := by
  cases hs.speaking h.coherent h.filed h.asked with
  | silent queued started closed outbox =>
    exact ⟨started ▸ ho.started, by rw [started, outbox]; exact ho.waiting⟩
  | said out reason running queued started closed outbox =>
    refine ⟨started ▸ ho.started, fun earlier hearlier later hlater => ?_⟩
    rw [started] at hearlier
    rcases Lanes.mem_of_push outbox hlater with hlater | rfl
    · exact ho.waiting earlier hearlier later hlater
    · rw [queued] at hq'
      exact (List.pairwise_append.1 hq').2.2 earlier (h.orderly.mem_queued hearlier) later (by simp)
  | began out running queued started closed outbox =>
    have hmem {later : Outgoing} (hlater : later ∈ w.outbox.toList) : later ∈ v.outbox.toList := by
      rw [Lanes.toList_of_take outbox]
      exact List.mem_cons_of_mem _ hlater
    have hout : out ∈ v.outbox.toList := by
      rw [Lanes.toList_of_take outbox]
      exact List.mem_cons_self
    refine ⟨?_, fun earlier hearlier later hlater => ?_⟩
    · rw [started]
      refine List.pairwise_append.2 ⟨ho.started, List.pairwise_singleton .., fun earlier hearlier later hlater => ?_⟩
      rw [List.mem_singleton.1 hlater]
      exact ho.waiting earlier hearlier out hout
    · rw [started] at hearlier
      rcases List.mem_append.1 hearlier with hearlier | hearlier
      · exact ho.waiting earlier hearlier later (hmem hlater)
      · rw [List.mem_singleton.1 hearlier]
        exact h.orderly.allows_of_take h.coherent hq running outbox hlater
  | ended queued started closed =>
    refine ⟨started ▸ ho.started, fun earlier _ later hlater => ?_⟩
    rw [(hs.coherent h.coherent).no_frames closed] at hlater
    cases hlater

/-- What was closed is silent in every run. -/
theorem Steps.silent (hs : Steps may v w) (h : v.Sound settings) (hh : v.Hushed) (ho : v.Ordered) :
    w.Hushed ∧ w.Ordered := by
  induction hs with
  | refl => exact ⟨hh, ho⟩
  | tail hsteps hstep ih =>
    have hsound := Steps.sound hsteps h
    have hhushed := hstep.hushed hsound ih.1
    exact ⟨hhushed, hstep.ordered hsound (ih.1.queued hsound.orderly)
      (hhushed.queued (hstep.sound hsound).orderly) ih.2⟩

end View

namespace Session

variable {s t : Session} {settings : Settings} {kind : LinkKind} {address : Option String}
  {capacity : Option Nat} {wall : Stamp}

/-- A connection falls silent as it closes. -/
structure FallsSilent (settings : Settings) (s : Session) : Prop where
  /-- It says at most once that it is closed. -/
  once : ∀ n, (s.said n).countP (·.flag = .connClose) ≤ 1
  /-- Then it queues no data, no credit and no other such word, and none of these follows on the wire. -/
  queued : s.queued.Pairwise Outgoing.Allows
  started : s.started.Pairwise Outgoing.Allows
  wire : Output settings.maxSegment s.closed s.writer s.started s.output
  /-- After the word of its peer it queues none of them. -/
  told : s.trace.Pairwise fun later earlier => ∀ n frame, earlier = .routed n frame → frame.flag = .connClose →
    ∀ out, later = .queued out → out.frame.flag.isVoice = true → out.conn ≠ some n
  /-- Each of these frames is one of a connection, and carries its id. -/
  named : ∀ out ∈ s.queued, out.frame.flag.isVoice = true →
    ∃ n c, out.conn = some n ∧ s.conns[n]? = some c ∧ c.id = out.frame.id

theorem Reachable.hushed (h : Reachable (start settings kind address capacity wall) s) :
    s.view.Hushed ∧ s.view.Ordered :=
  View.Steps.silent (h.steps (coherent_start settings kind address capacity wall))
    (View.sound_start settings) ⟨.nil, nofun⟩ ⟨.nil, nofun⟩

/-- Of the frames of a connection at most one tells that it is closed. -/
theorem countP_le_one {outs : List Outgoing} (h : outs.Pairwise Outgoing.Allows) (n : Nat) :
    ((outs.filter fun out => out.conn = some n).map (·.frame)).countP (·.flag = .connClose) ≤ 1 := by
  rw [List.countP_map, List.countP_eq_length_filter]
  generalize hcloses : (outs.filter fun out => out.conn = some n).filter _ = closes
  have hpair : closes.Pairwise Outgoing.Allows :=
    hcloses ▸ h.sublist (List.filter_sublist.trans List.filter_sublist)
  have hmem (out : Outgoing) (hout : out ∈ closes) : out.conn = some n ∧ out.frame.flag = .connClose := by
    rw [← hcloses, List.mem_filter, List.mem_filter] at hout
    exact ⟨of_decide_eq_true hout.1.2, by simpa using hout.2⟩
  match closes with
  | [] | [_] => simp
  | first :: second :: rest =>
    obtain ⟨hfirst, hclose⟩ := hmem first (by simp)
    obtain ⟨hsecond, hclose'⟩ := hmem second (by simp)
    have hallows := List.rel_of_pairwise_cons hpair (List.mem_cons_self)
    exact absurd (hsecond.trans hfirst.symm) (hallows hclose (by rw [hclose']; rfl))

/-- In every run, whatever the peer sends and whoever reads, writes and gives up, a connection that closes
falls silent: after the word of its close, or of its peer's, it queues no data, no credit and no word of a
close, and on the wire nothing of this follows its own word, although credit goes first. -/
theorem falls_silent_after_close (h : Reachable (start settings kind address capacity wall) s) :
    s.FallsSilent settings := by
  have hsound := h.sound
  obtain ⟨hhushed, hordered⟩ := h.hushed
  have hqueued : s.queued.Pairwise Outgoing.Allows := Pair.view_queued s ▸ hhushed.queued hsound.orderly
  refine ⟨countP_le_one hqueued, hqueued, Pair.view_started s ▸ hordered.started, ?_, ?_, fun out hout hvoice => ?_⟩
  · rw [← (show s.settings = settings from hsound.configured)]
    exact h.writesWhole
  · have hheeds : s.trace.Pairwise fun later earlier =>
        later.isTraffic = true → earlier.isTraffic = true → later.Heeds earlier :=
      List.pairwise_filter.1 hhushed.heeds
    refine hheeds.imp fun {later earlier} hheeds n frame hearlier hclose out hlater hvoice hconn => ?_
    subst hearlier hlater
    exact hheeds rfl rfl n (if_pos hclose) (by simp [Event.speaker?, hvoice, hconn])
  · obtain ⟨n, f, hn, hf, hid⟩ := hsound.orderly.exists_face (Pair.view_queued s ▸ hout)
      (Flag.forConn_of_isVoice hvoice)
    rw [view_faces_getElem?] at hf
    obtain ⟨c, hc, rfl⟩ := Option.map_eq_some_iff.1 hf
    exact ⟨n, c, hn, hc, hid⟩

/-- The peer asks for two connections, sends a byte on each, and closes the second. The user reads on both,
writes on the first, and closes both before the writer has its turns. -/
def farewells : List Move :=
  [.run .reader true, .deliver [6, 1, 0, 0, 0, 6, 2, 0, 0, 0, 3, 1, 0, 0, 0, 1, 0, 97, 3, 2, 0, 0, 0, 1, 0, 98]] ++
  List.replicate 4 (.run .reader true) ++ List.replicate 4 (.run .acceptor true) ++
  List.replicate 5 (.run .reader true) ++
  [.deliver [7, 2, 0, 0, 0], .run .reader true,
    .ask .accept, .run (.call 0) true, .run (.call 0) true, .run .acceptor true,
    .ask .accept, .run (.call 1) true, .run (.call 1) true,
    .ask (.read 0 (.bytes 4)), .run (.call 2) true, .run (.call 2) true,
    .ask (.read 1 (.bytes 4)), .run (.call 3) true, .run (.call 3) true,
    .ask (.write 0 [99]), .run (.call 4) true, .run (.call 4) true, .run (.call 4) true,
    .closeConn 0, .closeConn 1] ++ List.replicate 9 (.run .writer true)

/-- The credit of the first connection goes first, but its word of the close stays the last. The second one
has heard the word of its peer, and says nothing. -/
theorem farewells_fall_silent :
    ∃ s, Reachable (start (.build []) .tcp none none 0) s ∧
      s.queued.map (·.frame.flag) = [.newConnOk, .newConnOk, .msgSendOk, .newMsg, .connClose] ∧
      s.started.map (·.frame.flag) = [.msgSendOk, .newConnOk, .newConnOk, .newMsg, .connClose] ∧
      (s.heard 1).map (·.flag) = [.newMsg, .connClose] ∧ (s.said 1).map (·.flag) = [.newConnOk] ∧
      s.FallsSilent (.build []) := by
  have hplay : ((start (.build []) .tcp none none 0).playCalm farewells).any (fun s =>
      s.queued.map (·.frame.flag) = [.newConnOk, .newConnOk, .msgSendOk, .newMsg, .connClose] ∧
      s.started.map (·.frame.flag) = [.msgSendOk, .newConnOk, .newConnOk, .newMsg, .connClose] ∧
      (s.heard 1).map (·.flag) = [.newMsg, .connClose] ∧ (s.said 1).map (·.flag) = [.newConnOk]) = true := by
    decide +kernel
  obtain ⟨s, hs, hend⟩ := (Option.any_eq_true _ _).1 hplay
  obtain ⟨hqueued, hstarted, hheard, hsaid⟩ := of_decide_eq_true hend
  have hreach := (undisturbed_of_playCalm .refl hs).reachable
  exact ⟨s, hreach, hqueued, hstarted, hheard, hsaid, falls_silent_after_close hreach⟩

end Session

end StreamMux
