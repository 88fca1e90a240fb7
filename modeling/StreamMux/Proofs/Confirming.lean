import StreamMux.Proofs.Crosstalk

/-! Confirmations come first. A connection that the peer asked for is confirmed before it sends data or
says that it is closed, and in this order the peer hears of it. -/

namespace StreamMux

/-- What is sent along a connection in order: its data, and the word that it is closed. -/
def Flag.isStream : Flag → Bool
  | .newMsg | .newMsgPart | .connClose => true
  | _ => false

theorem Flag.forConn_of_isStream {f : Flag} (h : f.isStream = true) : f.forConn = true := by
  cases f <;> first | rfl | cases h

theorem Flag.isStream_of_isData {f : Flag} (h : f.isData = true) : f.isStream = true := by
  cases f <;> first | rfl | cases h

namespace View

variable {v w : View} {n : Nat} {id : Int32} {may : View → Nat → Prop} {settings : Settings}

/-- The connection is confirmed by what the session has queued. -/
def Affirmed (n : Nat) (v : View) : Prop :=
  ∃ out ∈ v.queued, out.conn = some n ∧ out.frame.flag = .newConnOk

/-- The user has the connection, or may accept it. -/
def Offered (n : Nat) (v : View) : Prop := v.Owns n ∨ n ∈ v.published

theorem Speaking.affirmed (hs : Speaking v w) (h : v.Affirmed n) : w.Affirmed n := by
  obtain ⟨out, hout, hconn⟩ := h
  rcases hs.queued with hq | ⟨more, -, hq⟩
  · exact ⟨out, hq ▸ hout, hconn⟩
  · exact ⟨out, hq ▸ List.mem_append_left _ hout, hconn⟩

theorem Offered.of_eq (h : w.Offered n) (hc : w.calls = v.calls) (hp : w.published = v.published) :
    v.Offered n := by
  simpa only [Offered, Owns, hc, hp] using h

theorem Offered.of_setStage {call : Nat} {stage : CallStage} (h : (v.setStage call stage).Offered n) :
    v.Offered n ∨ stage = .over (.conn n) := by
  rcases h with ⟨c, hc, hs⟩ | hp
  · obtain ⟨k, hk⟩ := List.mem_iff_getElem?.1 hc
    simp only [setStage, List.getElem?_modify] at hk
    obtain ⟨d, hd, hk⟩ := Option.map_eq_some_iff.1 hk
    split at hk
    · right; rw [← hs, ← hk]
    · left; left; exact ⟨d, List.mem_of_getElem? hd, by rw [hk, hs]⟩
  · exact .inl (.inr hp)

theorem affirmed_post {x : View} {out : Outgoing} (running : x.closed = false) (hn : out.conn = some n)
    (hflag : out.frame.flag = .newConnOk) : (x.post out).Affirmed n := by
  refine ⟨out, ?_, hn, hflag⟩
  rw [queued_post out running]
  exact List.mem_append_right _ (List.mem_singleton.2 rfl)

/-- Whatever is offered was offered before, or the peer has accepted it, or it is confirmed in the step. -/
theorem Step.offered (hs : Step may v w) (running : v.closed = false) (h : w.Offered n) :
    v.Offered n ∨ (∃ f, v.faces[n]? = some f ∧ f.reply = .given true) ∨ w.Affirmed n := by
  cases hs with
  | ask request =>
    rcases h with ⟨c, hc, hs⟩ | h
    · rcases List.mem_append.1 hc with hc | hc
      · exact .inl (.inl ⟨c, hc, hs⟩)
      · rw [List.mem_singleton.1 hc] at hs
        cases hs
    · exact .inl (.inr h)
  | goOn call stage plain =>
    rcases h.of_setStage with h | rfl
    · exact .inl h
    · cases plain
  | request | send =>
    rcases h.of_setStage with h | h
    · exact .inl (h.of_eq (by simp [addFace, setFace]) (by simp [addFace, setFace]))
    · cases h
  | @award call m request due f asked hf given =>
    rcases h.of_setStage with h | h
    · exact .inl h
    · cases h
      exact .inr (.inl ⟨f, hf, given⟩)
  | @accept call m request rest asked hp =>
    rcases h.of_setStage with h | h
    · exact .inl (h.imp_right fun h => by rw [hp]; exact List.mem_cons_of_mem _ h)
    · cases h
      exact .inl (.inr (by rw [hp]; exact List.mem_cons_self))
  | serve | refuse =>
    rcases h.of_setStage with h | h
    · exact .inl h
    · cases h
  | look | waste | start | stage | stageLate | discard | enter | hollow | answer | grant | farewell
  | register | retire | close => exact .inl h
  | report | leave | ping | echo | overflow | turnAway =>
    exact .inl (h.of_eq (by simp [setFace, note]) (by simp [setFace, note]))
  | @publish m f hp hf =>
    rcases h with h | h
    · exact .inl (.inl (by simpa [Owns] using h))
    · rw [post_published, List.mem_append, List.mem_singleton] at h
      rcases h with h | rfl
      · exact .inl (.inr h)
      · exact .inr (.inr (affirmed_post (x := { v with
          published := v.published ++ [n], acceptor := if v.closed then .over else .idle }) running rfl rfl))

/-- The acceptor confirms what it has registered. -/
theorem Step.publishing (hs : Step may v w) (running : w.closed = false) (h : v.acceptor = .publishing n) :
    w.acceptor = .publishing n ∨ w.Affirmed n := by
  cases hs with
  | register running ht hf hr idle =>
    rw [h] at idle
    cases idle
  | retire ended => exact absurd (ended.symm.trans running) (by decide)
  | @publish m f hp hf =>
    rw [h] at hp
    cases hp
    rw [post_closed] at running
    exact .inr (affirmed_post running rfl rfl)
  | ask | goOn | award | accept | refuse | serve | look | waste | start | stage | stageLate | discard
  | enter | hollow | answer | grant | farewell | close => exact .inl h
  | request | send | report | leave | ping | echo | overflow | turnAway =>
    exact .inl (by simpa [setStage, setFace, addFace, note] using h)

/-- What is registered was registered before, or the user asks for it, or the acceptor has just taken
it. -/
theorem Step.registered (hs : Step may v w) {i : Int32} (h : w.registry.lookup i = some n) :
    v.registry.lookup i = some n ∨ w.acceptor = .publishing n ∨
      ∃ f, w.faces[n]? = some f ∧ f.reply ≠ .unasked := by
  have hdelete {k : Int32} (h : (v.registry.delete k).1.lookup i = some n) : v.registry.lookup i = some n := by
    rw [Registry.lookup_delete] at h
    split at h
    · cases h
    · exact h
  have hclose {x : View} {m : Nat} (hx : x.registry = v.registry)
      (h : (x.closeConn m).registry.lookup i = some n) : v.registry.lookup i = some n := by
    rcases hf : x.faces[m]? with _ | f
    · rwa [closeConn, hf, hx] at h
    · cases hopen : f.closed
      · rw [closeConn_of_open hf hopen] at h
        exact hdelete (hx ▸ h)
      · rwa [closeConn_of_closed hf hopen, hx] at h
  cases hs with
  | ask | goOn | award | accept | serve | look | waste | start | stage | stageLate | discard | enter
  | hollow | answer | grant | farewell | retire => exact .inl h
  | report | send | ping | echo | turnAway | publish =>
    exact .inl (by simpa [setStage, setFace, note] using h)
  | refuse => exact .inl (hdelete h)
  | leave => exact .inl (hclose rfl h)
  | @overflow frame data part m => exact .inl (hclose (x := (v.note (.dispatched frame)).note (.routed m frame)) rfl h)
  | @request call id due asked running pos free =>
    let r : Registry Nat := { v.registry with entries := v.registry.entries ++ [(id, v.faces.length)] }
    have h : r.lookup i = some n := by simpa [setStage] using h
    by_cases hid : i = id
    · subst hid
      rw [lookup_append_of_free (r := v.registry) rfl free] at h
      cases h
      exact .inr (.inr ⟨.make v.settings i (.awaited call), by simp [setStage, addFace], by simp [Face.make]⟩)
    · rw [lookup_append_of_ne (r := v.registry) rfl hid] at h
      exact .inl h
  | @register lanes registry m f running ht hf hr idle =>
    rw [Registry.lookup_insertNew hr] at h
    split at h
    · cases h
      exact .inr (.inl rfl)
    · exact .inl h
  | close => cases h

/-- While the session runs, a connection that the peer asked for is offered once it is confirmed, and
registered when it is confirmed or about to be. -/
structure Prompt (v : View) : Prop where
  offered : ∀ n f, v.faces[n]? = some f → f.reply = .unasked → v.Offered n → v.Affirmed n
  registered : ∀ n f, v.faces[n]? = some f → f.reply = .unasked → v.registry.lookup f.id = some n →
    v.Affirmed n ∨ v.acceptor = .publishing n

theorem Step.prompt (hs : Step may v w) (h : v.Sound settings) (running : w.closed = false)
    (hp : v.Prompt) : w.Prompt := by
  have hspeak := hs.speaking h.coherent h.filed h.asked
  have hopen := hs.running running
  refine ⟨fun n g hg hun hoff => ?_, fun n g hg hun hl => ?_⟩
  · rcases hs.offered hopen hoff with hoff | ⟨f, hf, hgiven⟩ | haff
    · have hlt : n < v.faces.length := by
        rw [← length_marks]
        exact h.filed.handed_lt n (hoff.imp_right .inl)
      have hf := List.getElem?_eq_getElem hlt
      exact hspeak.affirmed (hp.offered n _ hf ((hs.kept_face h hf hg).unasked.1 hun) hoff)
    · rw [(hs.kept_face h hf hg).unasked.1 hun] at hgiven
      cases hgiven
    · exact haff
  · rcases hs.registered hl with hl | hpub | ⟨f, hf, hne⟩
    · obtain ⟨f, hf, hid⟩ : ∃ f, v.faces[n]? = some f ∧ f.id = g.id := by
        have hmark := h.filed.mark_of_lookup hl
        simp only [marks, List.getElem?_map, Option.map_eq_some_iff, Prod.mk.injEq] at hmark
        obtain ⟨f, hf, hid, -⟩ := hmark
        exact ⟨f, hf, hid⟩
      rw [← hid] at hl
      rcases hp.registered n f hf ((hs.kept_face h hf hg).unasked.1 hun) hl with haff | hpub
      · exact .inl (hspeak.affirmed haff)
      · exact (hs.publishing running hpub).symm
    · exact .inr hpub
    · rw [hg] at hf
      cases hf
      exact absurd hun hne

/-! ### The order of a stream -/

/-- The word that a connection is closed is queued when its user closes it, or when data comes in that its
window refuses. -/
theorem Step.parted (hs : Step may v w) {out : Outgoing} (hq : w.queued = v.queued ++ [out])
    (hflag : out.frame.flag = .connClose) (hn : out.conn = some n) :
    v.Owns n ∨ ∃ frame, frame.flag.isData = true ∧ v.addressee frame.id = some n ∧
      w.dispatched = v.dispatched ++ [frame] := by
  have hsame (hw : w.queued = v.queued) : False := by
    rw [hw] at hq
    exact absurd hq (by simp)
  have hpost {x : View} {o : Outgoing} (hx : x.queued = v.queued) (hw : w.queued = (x.post o).queued) :
      o = out := by
    cases hc : x.closed
    · rw [hw, queued_post o hc, hx] at hq
      simpa using hq
    · rw [post_of_closed o hc, hx] at hw
      exact (hsame hw).elim
  have hclose {x : View} {m : Nat} (hx : x.queued = v.queued) (hw : w.queued = (x.closeConn m).queued) :
      m = n := by
    rcases hf : x.faces[m]? with _ | f
    · rw [closeConn, hf, hx] at hw
      exact (hsame hw).elim
    · cases hopen : f.closed
      · rw [closeConn_of_open hf hopen] at hw
        have hw : w.queued = (x.sayClosed m f).queued := hw
        unfold sayClosed at hw
        split at hw
        · rw [hx] at hw
          exact (hsame hw).elim
        · rw [← hpost hx hw] at hn
          exact Option.some.inj hn
      · rw [closeConn_of_closed hf hopen, hx] at hw
        exact (hsame hw).elim
  cases hs with
  | ask | goOn | award | accept | refuse | look | waste | register | retire | close | serve | start
  | stage | stageLate | discard | enter | hollow | answer | grant | farewell => exact (hsame rfl).elim
  | leave m held =>
    obtain rfl := hclose rfl rfl
    exact .inl held
  | @overflow frame data part m f cause hseg hto hf hw =>
    obtain rfl := hclose (x := (v.note (.dispatched frame)).note (.routed m frame)) rfl rfl
    refine .inr ⟨frame, by rw [hseg.1]; split <;> rfl, hto, ?_⟩
    exact (dispatched_closeConn ..).trans (dispatched_note (.dispatched frame) v)
  | @request call id =>
    let x : View := { v.addFace (.make v.settings id (.awaited call)) with
      registry := { v.registry with entries := v.registry.entries ++ [(id, v.faces.length)] } }
    rw [← hpost (x := x) rfl rfl] at hflag
    cases hflag
  | @send call m written credit data stage f send =>
    rw [← hpost (x := v.setFace m { f with send }) rfl rfl] at hflag
    dsimp only [Frame.data] at hflag
    split at hflag <;> cases hflag
  | @report call m want stage f receive =>
    rw [← hpost (x := v.setFace m { f with receive }) rfl rfl] at hflag
    cases hflag
  | ping =>
    rw [← hpost (x := v) rfl rfl] at hflag
    cases hflag
  | @echo frame =>
    rw [← hpost (x := v.note (.dispatched frame)) rfl rfl] at hflag
    cases hflag
  | @turnAway lanes m f =>
    rw [← hpost (x := View.setFace m f.shut { v with staged := lanes }) rfl rfl] at hflag
    cases hflag
  | @publish m =>
    rw [← hpost (x := { v with
      published := v.published ++ [m], acceptor := if v.closed then .over else .idle }) rfl rfl] at hflag
    cases hflag

/-- In the order of its lane, a connection under the id that the peer asked for is confirmed before
anything of its stream is queued. -/
def Heralded (id : Int32) (v : View) : Prop :=
  ∀ (i n : Nat) (out : Outgoing) (f : Face), (onLane .normal v.queued)[i]? = some out → out.frame.id = id →
    out.conn = some n → v.faces[n]? = some f → f.reply = .unasked → out.frame.flag.isStream = true →
    ∃ yes ∈ (onLane .normal v.queued).take i, yes.frame.id = id ∧ yes.frame.flag = .newConnOk

theorem lane_of_isStream {out : Outgoing} (h : out.frame.flag.isStream = true) : out.lane = .normal := by
  unfold Outgoing.lane
  cases hf : out.frame.flag <;> simp_all [Flag.isStream, Flag.isPriority]

section Order

variable {out : Outgoing} {g : Face} (hs : Step may v w) (h : v.Sound settings)
  (hclear : ∀ n frame, v.acceptor = .publishing n → frame.flag.isData = true →
    v.addressee frame.id = some n → frame.id = id → w.dispatched ≠ v.dispatched ++ [frame])
include hs h hclear

/-- What speaks on a stream was confirmed before, if no data came in before it was. -/
theorem Step.affirmed_of_said (hp : v.Prompt) (reason : Reason v w out)
    (hq : w.queued = v.queued ++ [out]) (hn : out.conn = some n) (hg : w.faces[n]? = some g)
    (hid : g.id = id) (hun : g.reply = .unasked) (hflag : out.frame.flag.isStream = true) :
    v.Affirmed n := by
  have howned (howns : v.Owns n) : v.Affirmed n := by
    have hlt : n < v.faces.length := by
      rw [← length_marks]
      exact h.filed.handed_lt n (.inl howns)
    have hf := List.getElem?_eq_getElem hlt
    exact hp.offered n _ hf ((hs.kept_face h hf hg).unasked.1 hun) (.inl howns)
  have hparted (hclose : out.frame.flag = .connClose) : v.Affirmed n := by
    rcases hs.parted hq hclose hn with howns | ⟨frame, hdata, hto, hd⟩
    · exact howned howns
    · obtain ⟨f, hf, -⟩ := exists_of_addressee hto
      obtain ⟨-, hfid, -, hlook, -⟩ := addressee_spec h hto hf
      have hkept := hs.kept_face h hf hg
      rw [← hfid] at hlook
      refine (hp.registered n f hf (hkept.unasked.1 hun) hlook).resolve_right fun hpub => ?_
      exact hclear n frame hpub hdata hto (hfid.symm.trans (hkept.id.symm.trans hid)) hd
  have hexchange (hx : out.frame.flag.isExchange = true) : v.Affirmed n := by
    rcases reason.2 with ⟨-, hnone⟩ | ⟨m, hm, -, -, howns⟩
    · rw [hn] at hnone
      cases hnone
    · rw [hn] at hm
      cases hm
      exact howned (howns hx)
  cases hf : out.frame.flag with
  | newMsg | newMsgPart => exact hexchange (by rw [hf]; rfl)
  | connClose => exact hparted hf
  | _ =>
    rw [hf] at hflag
    cases hflag

/-- Nothing of a stream is queued before the confirmation, if no data comes in before it. -/
theorem Step.heralded (hp : v.closed = false → v.Prompt) (hh : v.Heralded id) : w.Heralded id := by
  intro i n out g hi hid hn hg hun hflag
  have hnamed {u : View} (hu : u.Orderly) (hout : out ∈ u.queued) : ∃ f, u.faces[n]? = some f ∧ f.id = id := by
    obtain ⟨m, f, hm, hf, hfid⟩ := hu.exists_face hout (Flag.forConn_of_isStream hflag)
    obtain rfl : n = m := Option.some.inj (hn.symm.trans hm)
    exact ⟨f, hf, hfid.trans hid⟩
  have hold (hi : (onLane .normal v.queued)[i]? = some out) :
      ∃ yes ∈ (onLane .normal v.queued).take i, yes.frame.id = id ∧ yes.frame.flag = .newConnOk := by
    obtain ⟨f, hf, -⟩ := hnamed h.orderly (List.mem_filter.1 (List.mem_of_getElem? hi)).1
    exact hh i n out f hi hid hn hf ((hs.kept_face h hf hg).unasked.1 hun) hflag
  have horderly := hs.orderly h.coherent h.filed h.asked h.orderly
  have hspeak := hs.speaking h.coherent h.filed h.asked
  cases hspeak with
  | silent queued | began _ _ queued | ended queued =>
    rw [queued] at hi ⊢
    exact hold hi
  | said new reason running queued =>
    rw [queued, onLane_append] at hi ⊢
    rcases Nat.lt_or_ge i (onLane .normal v.queued).length with hlt | hge
    · rw [List.getElem?_append_left hlt] at hi
      rw [List.take_append_of_le_length (Nat.le_of_lt hlt)]
      exact hold hi
    -- The frame is queued now, and its connection was confirmed before.
    · rw [List.getElem?_append_right hge] at hi
      obtain rfl : new = out := (List.mem_singleton.1 (List.mem_filter.1 (List.mem_of_getElem? hi)).1).symm
      obtain ⟨f, hf, hfid⟩ := hnamed horderly (by rw [queued]; exact List.mem_append_right _ (List.mem_singleton.2 rfl))
      rw [hg] at hf
      cases hf
      obtain ⟨yes, hyes, hconn, hword⟩ :=
        hs.affirmed_of_said h hclear (hp running) reason queued hn hg hfid hun hflag
      refine ⟨yes, ?_, ?_, hword⟩
      · rw [List.take_append, List.take_of_length_le hge]
        refine List.mem_append_left _ (List.mem_filter.2 ⟨hyes, ?_⟩)
        simp [Outgoing.lane, hword, Flag.isPriority]
      · obtain ⟨m, f, hm, hf, hfid'⟩ := h.orderly.exists_face hyes (by rw [hword]; rfl)
        obtain rfl : n = m := Option.some.inj (hconn.symm.trans hm)
        exact hfid'.symm.trans ((hs.kept_face h hf hg).id.symm.trans hfid)

end Order

/-! ### Two sides -/

section Two

variable {u v w : View} {frame : Frame}

/-- As long as the acceptor is about to confirm a connection, no data comes in under its id. -/
theorem Fits.not_data (hfits : Fits id u v) (hv : v.Sound settings)
    (hnew : u.dispatched ++ [frame] <+: heardAs v.started) (hid : frame.id = id) {f : Face}
    (hpub : u.acceptor = .publishing n) (hf : u.faces[n]? = some f) (hfid : f.id = id) :
    frame.flag.isData = false := by
  refine Bool.eq_false_iff.2 fun hdata => ?_
  obtain ⟨hrouted, hword⟩ : frame.flag.forConn = true ∧ frame.flag.word? = some .talk := by
    cases hf : frame.flag with
    | newMsg | newMsgPart => exact ⟨rfl, rfl⟩
    | _ =>
      rw [hf] at hdata
      cases hdata
  obtain ⟨out, hout, rfl, hconn⟩ := exists_of_heard hv hnew
  obtain ⟨m, hm⟩ := hconn hrouted
  obtain ⟨last, last', phase, htidy⟩ := hfits
  have hseat : (u.endOf id v last).seat.publishing = some n := by
    simp [endOf, seat, hpub, AcceptorStage.publishing?, standing_of_face hf, hfid]
  obtain ⟨-, -, -, -, -, -, hwords, -⟩ := htidy.leads (htidy.confirmed n (.inl hseat)).1
  exact (hwords _ (mem_sayings hout hid hm hword)).2 rfl

/-- A confirmation reaches a connection that waits for it. -/
theorem Fits.addressee_of_confirmed (hfits : Fits id u v) (hu : u.Sound settings) (hv : v.Sound settings)
    (hnew : u.dispatched ++ [frame] <+: heardAs v.started) (hid : frame.id = id)
    (hflag : frame.flag = .newConnOk) (running : u.closed = false) :
    ∃ k, u.addressee id = some k ∧ u.standing id k = some .asking := by
  obtain ⟨out, hout, rfl, hconn⟩ := exists_of_heard hv hnew
  obtain ⟨m, hm⟩ := hconn (by rw [hflag]; rfl)
  obtain ⟨last, last', phase, htidy⟩ := hfits
  have hword : (Word.yes, m) ∈ v.sayings id u.dispatched.length :=
    mem_sayings hout hid hm (by rw [hflag]; rfl)
  obtain ⟨k, -, hasking, hheld⟩ := htidy.mine.answers _ hword rfl
  have hlook : u.registry.lookup id = some k := hheld (by simp [endOf, seat, running])
  exact ⟨k, hu.filed.addressee_of_lookup hu.coherent hlook, hasking⟩

/-- The peer has accepted a connection under the id that the user asked for. -/
def Engaged (id : Int32) (v : View) : Prop :=
  ∃ (k : Nat) (f : Face), v.faces[k]? = some f ∧ f.id = id ∧ f.reply ≠ .unasked ∧ f.reply.isSettled = true

theorem Step.engaged (hs : Step may u w) (hu : u.Sound settings) (h : u.Engaged id) : w.Engaged id := by
  obtain ⟨k, f, hf, hid, hasked, hset⟩ := h
  obtain ⟨g, hg, hkept⟩ := hs.exists_kept hu hf
  exact ⟨k, g, hg, hkept.id.trans hid, fun hun => hasked (hkept.unasked.1 hun), hkept.settled hset⟩

/-- No confirmation under the id is lost while the session runs. -/
def Heeds (id : Int32) (v : View) : Prop :=
  ∀ frame ∈ v.dispatched, frame.id = id → frame.flag = .newConnOk → v.closed = true ∨ v.Engaged id

theorem Step.heeds (hs : Step anyOne u w) (hu : u.Sound settings) (hp : u.Placed id)
    (hfits : Fits id u v) (hv : v.Sound settings) (hnew : w.dispatched <+: heardAs v.started)
    (h : u.Heeds id) : w.Heeds id := by
  intro frame hmem hid hflag
  have hold (hmem : frame ∈ u.dispatched) : w.closed = true ∨ w.Engaged id :=
    (h frame hmem hid hflag).imp hs.closed_mono (hs.engaged hu)
  cases hs.hearing with
  | silent hearings dispatched =>
    rw [dispatched] at hmem
    exact hold hmem
  | heard other target hearings dispatched heard route =>
    rw [dispatched] at hnew hmem
    rcases List.mem_append.1 hmem with hmem | hmem
    · exact hold hmem
    obtain rfl := List.mem_singleton.1 hmem
    refine or_iff_not_imp_left.2 fun running => ?_
    have running : u.closed = false := Bool.eq_false_iff.2 fun hc => running (hs.closed_mono hc)
    obtain ⟨k, hto, hasking⟩ := hfits.addressee_of_confirmed hu hv hnew hid hflag running
    have htarget : target = some k := by
      rw [route, hflag, hid, hto]
      rfl
    obtain ⟨f, hf, hopen, -⟩ := exists_of_addressee hto
    obtain ⟨g, hg, hgid, hst⟩ := exists_of_standing hasking
    rw [hf] at hg
    cases hg
    obtain ⟨f', hf', hkept⟩ := hs.exists_kept hu hf
    refine ⟨k, f', hf', hkept.id.trans hgid, fun hun => ?_, ?_⟩
    · rw [hkept.unasked.1 hun] at hst
      cases hst
    · have hheard (m : Nat) : w.heard m = u.heard m ++ if k = m then [frame] else [] := by
        rw [heard, htarget]
        simp only [Option.some.injEq]
      exact hs.settled_of_confirmed hu hp hheard hflag hasking hf hopen hf'

end Two

end View

namespace Joint

variable {settings : Settings} {id : Int32} {v : Side → View} {side : Side}

/-- What a step keeps, given that both sides fit, holds after a run that overruns no window under the id
before the peer accepts. -/
theorem invariant_of_room {P : View → Prop} (hstart : P (.start settings))
    (hstep : ∀ u v w, u.Sound settings → v.Sound settings → u.Placed id → View.Fits id u v →
      View.Step anyOne u w → w.dispatched <+: heardAs v.started → P u → P w)
    (h : Joint settings v) (hroom : ∀ side, ¬ (v side).Overrun id) (side : Side) : P (v side) := by
  induction h with
  | start => exact hstart
  | @step v w a h hs hheard ih =>
    have hbefore := h.room_before hs hroom
    rcases Pair.eq_or_eq_other a side with rfl | rfl
    · have hkept := h.kept hbefore side
      rw [Function.update_self]
      exact hstep _ _ _ (h.sound side) (h.sound side.other) hkept.placed hkept.fits hs hheard (ih hbefore)
    · rw [update_other]
      exact ih hbefore

theorem heralded (h : Joint settings v) (hroom : ∀ side, ¬ (v side).Overrun id) (side : Side) :
    (v side).Heralded id := by
  have hstart : ((View.start settings).closed = false → (View.start settings).Prompt) ∧
      (View.start settings).Heralded id :=
    ⟨fun _ => ⟨fun _ _ hf => (by cases hf), fun _ _ hf => by cases hf⟩,
      fun _ _ _ _ _ _ _ hf => by cases hf⟩
  refine (h.invariant_of_room (P := fun u => (u.closed = false → u.Prompt) ∧ u.Heralded id) hstart
    (fun u x w hu hx hp hfits hs hnew ih => ?_) hroom side).2
  have hprompt (running : w.closed = false) : w.Prompt := hs.prompt hu running (ih.1 (hs.running running))
  refine ⟨hprompt, hs.heralded hu (fun n frame hpub hdata hto hid hd => ?_) ih.1 ih.2⟩
  obtain ⟨f, hf, -⟩ := View.exists_of_addressee hto
  have hfid := (View.addressee_spec hu hto hf).2.1
  rw [hd] at hnew
  rw [hfits.not_data hx hnew hid hpub hf (hfid.trans hid)] at hdata
  cases hdata

theorem heeds (h : Joint settings v) (hroom : ∀ side, ¬ (v side).Overrun id) (side : Side) :
    (v side).Heeds id :=
  h.invariant_of_room (P := fun u => u.Heeds id) (fun _ hf => by cases hf)
    (fun _ _ _ hu hx hp hfits hs hnew ih => hs.heeds hu hp hfits hx hnew ih) hroom side

end Joint

end StreamMux
