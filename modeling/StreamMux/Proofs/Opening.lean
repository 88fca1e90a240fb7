import StreamMux.Proofs.EndOfStream
import StreamMux.Proofs.Halting
import StreamMux.Proofs.Inbound
import StreamMux.Proofs.Requests
import StreamMux.Proofs.Routing

/-! What becomes of an open. It registers a connection under a free id, asks the peer for it once, and ends
with the first answer that reaches the connection. Later answers change nothing, and an open that is given
up leaves its connection where it is. As long as nothing is displaced the id of an open connection is not
drawn again; else it can be, once the counter of the ids has come round. -/

namespace StreamMux

theorem Flag.isAnswer_of_isData {f : Flag} (h : f.isData = true) : f.isAnswer = false := by
  cases f <;> first | rfl | cases h

/-- The answer that accepts or refuses. -/
def Flag.ofAnswer (accepted : Bool) : Flag := if accepted then .newConnOk else .newConnFail

/-- The answers to a request among frames. -/
def answersOf (frames : List Frame) : List Flag := (frames.map Frame.flag).filter Flag.isAnswer

theorem answersOf_concat_other {frame : Frame} (h : frame.flag.isAnswer = false) (frames : List Frame) :
    answersOf (frames ++ [frame]) = answersOf frames := by
  simp [answersOf, h]

theorem answersOf_concat_answer {frame : Frame} {accepted : Bool} (h : frame.flag = .ofAnswer accepted)
    (frames : List Frame) : answersOf (frames ++ [frame]) = answersOf frames ++ [.ofAnswer accepted] := by
  simp only [answersOf, List.map_append, List.map_singleton, List.filter_append, h]
  cases accepted <;> rfl

namespace Story

variable {settings : Settings} {ended : Bool} {s s' : Story}

/-- A connection knows the first answer that it heard, and waits as long as it heard none. The peer is asked
for it once if the user asked for it, and else never. -/
structure Answered (s : Story) : Prop where
  awaited : ∀ k, s.face.reply = .awaited k → answersOf s.heard = []
  given : ∀ accepted, s.face.reply = .given accepted → (answersOf s.heard).head? = some (.ofAnswer accepted)
  asked : s.said.filter (·.flag = .newConn) =
    if s.face.reply = .unasked then [] else [.control .newConn s.face.id]

/-- A step takes in an answer that it hears. Without one the reply is as it was, or lost. -/
theorem Step.answers (hs : Step settings ended s s') :
    answersOf s'.heard = answersOf s.heard ∧
        (s'.face.reply = s.face.reply ∨ s'.face.reply = s.face.reply.lose) ∨
      ∃ accepted, answersOf s'.heard = answersOf s.heard ++ [.ofAnswer accepted] ∧
        s'.face.reply = s.face.reply.answer accepted := by
  have hsegment {frame : Frame} {data : Bytes} {part : Bool} (h : View.IsSegment frame data part) :
      frame.flag.isAnswer = false := by
    rw [h.1]
    cases part <;> rfl
  cases hs with
  | serve | look | waste => exact .inl ⟨rfl, .inl rfl⟩
  | report | send | confirm =>
    rw [face_say, heard_say]
    exact .inl ⟨rfl, .inl rfl⟩
  | leave =>
    rw [face_leave, heard_leave]
    exact .inl ⟨rfl, .inl rfl⟩
  | shut => exact .inl ⟨rfl, .inr rfl⟩
  | deny =>
    rw [face_say, heard_say]
    exact .inl ⟨rfl, .inr rfl⟩
  | enter hid hopen hseg => exact .inl ⟨answersOf_concat_other (hsegment hseg) _, .inl rfl⟩
  | overflow hid hopen hseg =>
    rw [face_leave, heard_leave]
    exact .inl ⟨answersOf_concat_other (hsegment hseg) _, .inl rfl⟩
  | hollow hid hopen hdata => exact .inl ⟨answersOf_concat_other (Flag.isAnswer_of_isData hdata) _, .inl rfl⟩
  | grant hid hopen hflag | farewell hid hopen hflag =>
    exact .inl ⟨answersOf_concat_other (by rw [hflag]; rfl) _, .inl rfl⟩
  | @answer frame accepted hid hopen hflag => exact .inr ⟨accepted, answersOf_concat_answer hflag _, rfl⟩

/-- No step asks the peer for the connection. -/
theorem Step.requests (hs : Step settings ended s s') :
    s'.said.filter (·.flag = .newConn) = s.said.filter (·.flag = .newConn) := by
  have hsay {t : Story} {frame : Frame} (h : frame.flag ≠ .newConn) :
      (t.say ended frame).said.filter (·.flag = .newConn) = t.said.filter (·.flag = .newConn) := by
    cases ended
    · exact (List.filter_append ..).trans (by simp [h])
    · rfl
  have hleave {t : Story} :
      (t.leave ended).said.filter (·.flag = .newConn) = t.said.filter (·.flag = .newConn) := by
    unfold Story.leave
    split
    · rfl
    · exact hsay (by simp [Frame.control])
  cases hs with
  | serve | look | waste | shut | enter | hollow | answer | grant | farewell => rfl
  | report | confirm | deny => exact hsay (by simp [Frame.sendOk, Frame.control])
  | send => exact hsay (by dsimp only [Frame.data]; split <;> simp)
  | leave | overflow => exact hleave

theorem Step.answered (hs : Step settings ended s s') (h : s.Answered) : s'.Answered where
  awaited k hk := by
    rcases hs.answers with ⟨hheard, hreply | hreply⟩ | ⟨accepted, -, hreply⟩ <;> rw [hk] at hreply
    · exact hheard.trans (h.awaited k hreply.symm)
    · cases hr : s.face.reply <;> rw [hr] at hreply <;> cases hreply
    · cases hr : s.face.reply <;> rw [hr] at hreply <;> cases hreply
  given accepted hgiven := by
    rcases hs.answers with ⟨hheard, hreply | hreply⟩ | ⟨now, hheard, hreply⟩ <;> rw [hgiven] at hreply
    · rw [hheard, h.given accepted hreply.symm]
    · cases hr : s.face.reply <;> rw [hr] at hreply <;> cases hreply
      rw [hheard, h.given accepted hr]
    · rw [hheard, List.head?_append]
      cases hr : s.face.reply <;> rw [hr] at hreply <;> cases hreply
      · rw [h.awaited _ hr]
        rfl
      · rw [h.given accepted hr]
        rfl
  asked := by
    rw [hs.requests, h.asked, hs.keeps.1]
    simp only [hs.unasked_iff]

theorem Born.answered (h : Born settings s) : s.Answered := by
  cases h with
  | own => exact ⟨fun _ _ => rfl, nofun, rfl⟩
  | peer | late => exact ⟨nofun, nofun, rfl⟩

end Story

namespace View

variable {v w : View} {n : Nat} {may : View → Nat → Prop} {settings : Settings}

/-- Every connection knows its first answer, and every open that waits for an answer does so for a connection
of its own, which the user asked for. -/
structure Attentive (v : View) : Prop where
  stories : ∀ n s, v.story n = some s → s.Answered
  apart : v.WaitApart
  own : ∀ (k n : Nat) (r : Request) (d : Moment), v.calls[k]? = some (r, .answering n d) →
    ∃ f, v.faces[n]? = some f ∧ f.reply ≠ .unasked

theorem Step.attentive (hs : Step may v w) (h : v.Sound settings) (ha : v.Attentive) : w.Attentive where
  stories n s' hs' := by
    rcases (hs.continues h.filed h.rooted n).comes_from hs' with ⟨s, hs₀, rfl | hstep⟩ | ⟨hborn, -⟩
    · exact ha.stories n _ hs₀
    · exact hstep.answered (ha.stories n s hs₀)
    · exact hborn.answered
  apart := hs.waitApart h ha.apart
  own k n r d hk := by
    obtain ⟨call, hcall⟩ := hs.answering
    rcases hcall k n r d hk with hk₀ | ⟨-, -, hnew⟩
    · obtain ⟨f, hf, hreply⟩ := ha.own k n r d hk₀
      exact (hs.exists_kept h hf).imp fun g hg => ⟨hg.1, fun he => hreply (hg.2.unasked.1 he)⟩
    · have hg := List.getElem?_eq_getElem (lt_of_answering (hs.sound h) hk)
      exact ⟨_, hg, (hnew _ hg).2⟩

theorem Steps.attentive (hs : Steps may v w) (h : v.Sound settings) (ha : v.Attentive) : w.Attentive := by
  induction hs with
  | refl => exact ha
  | tail hsteps hstep ih => exact hstep.attentive (Steps.sound hsteps h) ih

/-- The first answer that a connection hears stays the first, and what is closed stays closed. -/
theorem Steps.keeps_answer (hs : Steps may v w) (h : v.Sound settings) {s : Story} (hstory : v.story n = some s) :
    ∃ s', w.story n = some s' ∧ answersOf s.heard <+: answersOf s'.heard ∧
      (s.face.closed = true → s'.face.closed = true) := by
  induction hs with
  | refl => exact ⟨s, hstory, List.prefix_rfl, id⟩
  | tail hsteps hstep ih =>
    obtain ⟨t, ht, hanswers, hclosed⟩ := ih
    have hsound := Steps.sound hsteps h
    obtain ⟨t', ht', rfl | hstory⟩ := (hstep.continues hsound.filed hsound.rooted n).goes_on ht
    · exact ⟨_, ht', hanswers, hclosed⟩
    · refine ⟨t', ht', hanswers.trans ?_, fun hc => hstory.kept.closed (hclosed hc)⟩
      rcases hstory.answers with ⟨he, -⟩ | ⟨accepted, he, -⟩
      · exact he ▸ List.prefix_rfl
      · exact he ▸ List.prefix_append ..

end View

namespace Session

variable {s t u : Session} {k n : Nat} {id : Int32} {f : Frame} {c : Call}

/-- The first answer that reached the connection. -/
def firstAnswer (n : Nat) (s : Session) : Option Flag := (answersOf (s.heard n)).head?

/-! ### The request -/

/-- From `s` to `t` the open `k` ends and leaves the registry and the connections as they are; but it may have
been the last call on a session whose handle is gone, which ends with it. -/
def GivesUp (k : Nat) (s t : Session) : Prop :=
  t.registry = s.registry ∧ t.conns = s.conns ∨
    s.handle = false ∧ t.closed = true ∧
      ∀ j c, j ≠ k → s.calls[j]? = some c → c.request.holdsHandle = true → c.isOver = true

/-- What a move makes of an open that has not begun. -/
inductive Begins (k : Nat) (c : Call) (m : Move) (s t : Session) : Prop
  /-- A connection is made and registered, and only then the peer is asked for it. -/
  | asks (id : Int32) (running : s.closed = false) (pos : 0 < id) (free : s.registry.get? id = none)
      (conns : t.conns = s.conns ++ [.make s.settings id (.awaited k)])
      (entered : t.registry.get? id = some s.conns.length)
      (others : ∀ i, i ≠ id → t.registry.get? i = s.registry.get? i)
      (trace : t.trace = .queued { frame := .control .newConn id, conn := s.conns.length } ::
        .registered s.conns.length :: s.trace)
      (waits : t.Awaits k s.conns.length)
  /-- All ids of the round are in use, and the open looks again once others have had a turn. -/
  | looks (running : s.closed = false)
      (full : ∀ id, 0 < id → id ≤ IdSource.limit → (s.registry.get? id).isSome = true)
      (same : t = { s with ready := .call k :: s.ready.erase (.call k) })
  | late (ended : s.closed = true) (fails : t.Stands k (.over (.failed .sessionClosed)))
  | cancelled (cancelled : c.cancelled = true) (drops : t.Stands k .dropped) (leaves : s.GivesUp k t)
  /-- It was not its turn. -/
  | waits (other : ∀ first, m ≠ .run (.call k) first) (still : t.Stands k .fresh)

/-- An open begins by asking for a connection under a free id, if there is one. -/
theorem begins_of_fresh (h : s.view.Coherent) (hopen : s.closed = false) (hc : s.calls[k]? = some c)
    (hrequest : c.request = .openConn) (hstage : c.stage = .fresh) (hlive : c.cancelled = false) (first : Bool)
    (m : Move) : Begins k c m s (s.run (.call k) first) := by
  cases hdraw : s.ids.draw s.registry.contains with
  | none =>
    refine .looks hopen (fun id hpos hle => ?_) ?_
    · cases hfree : s.registry.contains id with
      | true => exact hfree
      | false =>
        obtain ⟨drawn, hsome, -⟩ := IdSource.exists_draw hpos hle hfree s.ids
        rw [hdraw] at hsome
        cases hsome
    · rw [run, takeTurn_of_fresh hopen hc hrequest hstage hlive, hdraw]
      rfl
  | some drawn =>
    obtain ⟨id, ids⟩ := drawn
    obtain ⟨hpos, hfree⟩ := IdSource.pos_and_free_of_draw hdraw
    have hreg : s.registry.closed = false := h.registry.trans hopen
    have hnone : s.registry.get? id = none := by simpa [Registry.contains] using hfree
    have hlookup : s.registry.lookup id = none := by simpa [Registry.get?, hreg] using hnone
    obtain ⟨outbox, ready, -, hrun⟩ := exists_run_of_draw h hopen hc hrequest hstage hlive hdraw first
    rw [hrun]
    refine .asks id hopen hpos hnone rfl ?_ (fun i hi => ?_) rfl
      ⟨s.now + s.settings.openTimeout, { c with stage := .answering s.conns.length _ }, ?_, rfl⟩
    · simp only [Registry.get?, hreg, Bool.false_eq_true, ↓reduceIte]
      exact View.lookup_append_of_free rfl hlookup
    · simp only [Registry.get?, hreg, Bool.false_eq_true, ↓reduceIte]
      exact View.lookup_append_of_ne rfl hi
    · simp [hc]

/-! ### The outcome -/

/-- What a move makes of an open that waits for the answer to its connection. -/
inductive Resolves (k n : Nat) (s t : Session) : Prop
  | waits (still : t.Awaits k n)
  | accepted (answer : s.firstAnswer n = some .newConnOk) (gives : t.Stands k (.over (.conn n)))
  /-- The connection is closed and registered no longer. -/
  | refused (answer : s.firstAnswer n = some .newConnFail)
      (fails : t.Stands k (.over (.failed .connectionRefused))) (shut : t.Shut n)
      (gone : ∀ id, t.registry.get? id ≠ some n)
  | timedOut (answer : s.firstAnswer n = none) (fails : t.Stands k (.over (.failed .openTimeout)))
      (leaves : s.GivesUp k t)
  | cancelled (drops : t.Stands k .dropped) (leaves : s.GivesUp k t)
  | ended (lost : s.closed = true ∨ (s.conns[n]?).map Conn.reply = some .lost)
      (fails : t.Stands k (.over (.failed .sessionClosed)))

theorem givesUp_reap (h : t.handle = s.handle) (hregistry : t.registry = s.registry)
    (hconns : t.conns = s.conns) (hcalls : ∀ j, j ≠ k → t.calls[j]? = s.calls[j]?) : s.GivesUp k t.reap := by
  unfold reap
  split
  · exact .inl ⟨hregistry, hconns⟩
  · rename_i hlast
    obtain ⟨hgone, hidle⟩ := not_or.1 hlast
    refine .inr ⟨by simpa [h] using hgone, closed_close t, fun j c hj hc hholds => ?_⟩
    cases hover : c.isOver
    · refine absurd (List.any_eq_true.2 ⟨c, List.mem_of_getElem? ((hcalls j hj).trans hc), ?_⟩) hidle
      rw [hholds, hover]
      rfl
    · rfl

/-- A connection that is closed stays so if the session ends with its last call. -/
theorem exists_closed_reap (h : s.view.Coherent) {d : Conn} (hd : s.conns[n]? = some d) (hclosed : d.closed = true) :
    ∃ d, s.reap.conns[n]? = some d ∧ d.closed = true := by
  have hmark := mark_of_conn hd
  have hreap : s.reap.view.marks[n]? = some (d.id, true) := by
    rcases view_reap_cases h with hv | hv <;> rw [hv]
    · exact hclosed ▸ hmark
    · have hface := (View.shutAll_getElem? (s.view.registry.entries.map (·.2) ++ s.view.staged.toList) s.view n)
      rw [view_faces_getElem?, hd] at hface
      have := View.marks_getElem? (v := s.view.close) hface
      rw [this]
      split <;> simp [Conn.face, Face.shut, Face.close, Face.stop, hclosed]
  obtain ⟨e, he, -, hc⟩ := exists_of_mark hreap
  exact ⟨e, he, hc⟩

theorem stands_finish (hc : s.calls[k]? = some c) (outcome : Outcome) :
    (s.finish k outcome).Stands k (.over outcome) := by
  refine ⟨{ c with stage := .over outcome }, ?_, rfl⟩
  rw [calls_finish, setStage, List.getElem?_modify, hc]
  simp

/-- A call that waits for nobody, or for an answer, is dropped on its next turn if it was given up. -/
theorem run_of_cancelled (hc : s.calls[k]? = some c)
    (hstage : c.stage = .fresh ∨ ∃ n due, c.stage = .answering n due) (hcancelled : c.cancelled = true)
    (first : Bool) : (s.run (.call k) first).Stands k .dropped ∧ s.GivesUp k (s.run (.call k) first) := by
  let r : Session := { s with ready := s.ready.erase (.call k) }
  obtain ⟨ready, hrun⟩ := exists_run (.call k) first s
  have hgiven : c.isGivenUp = true := by
    rw [Call.isGivenUp_of_not_sending, hcancelled]
    rintro written hsending
    simp [hsending] at hstage
  have hturn : (s.takeTurn (.call k) first).1 = (r.setStage k .dropped).reap := by
    obtain hfresh | ⟨n, due, hwaits⟩ := hstage
    · simp only [takeTurn, turn, callTurn, hc, Call.isOver, hfresh, hgiven, dropCall, Bool.false_eq_true,
        ↓reduceIte, r]
    · simp only [takeTurn, turn, callTurn, hc, Call.isOver, hwaits, hgiven, dropCall, Bool.false_eq_true,
        ↓reduceIte, r]
  rw [hrun, hturn]
  refine ⟨⟨{ c with stage := .dropped }, ?_, rfl⟩, givesUp_reap (t := r.setStage k .dropped) rfl rfl rfl fun j hj => ?_⟩
  · show (r.setStage k .dropped).reap.calls[k]? = _
    rw [calls_reap, setStage, List.getElem?_modify, show r.calls[k]? = some c from hc]
    simp
  · simp [r, setStage, Ne.symm hj]

theorem givesUp_finish (ready : List Fiber) (k : Nat) (outcome : Outcome) (s : Session) :
    s.GivesUp k (({ s with ready } : Session).finish k outcome) := by
  let r : Session := (({ s with ready } : Session).setStage k (.over outcome)).note (.finished k outcome)
  refine givesUp_reap (t := r) rfl rfl rfl fun j hj => ?_
  simp [r, setStage, note, Ne.symm hj]

/-- What any move makes of an open that has not begun. -/
theorem begins_move (h : s.view.Coherent) (hc : s.calls[k]? = some c) (hrequest : c.request = .openConn)
    (hstage : c.stage = .fresh) {m : Move} (hm : s.move? m = some t) : Begins k c m s t := by
  by_cases hown : ∃ first, m = .run (.call k) first
  · obtain ⟨first, rfl⟩ := hown
    simp only [move?] at hm
    split at hm <;> cases hm
    cases hcancelled : c.cancelled with
    | true =>
      obtain ⟨hdrops, hleaves⟩ := run_of_cancelled hc (.inl hstage) hcancelled first
      exact .cancelled hcancelled hdrops hleaves
    | false =>
      cases hclosed : s.closed with
      | false => exact begins_of_fresh h hclosed hc hrequest hstage hcancelled first _
      | true =>
        obtain ⟨ready, hrun⟩ := exists_run (.call k) first s
        have hturn : (s.takeTurn (.call k) first).1 =
            ({ s with ready := s.ready.erase (.call k) } : Session).finish k (.failed .sessionClosed) := by
          simp only [takeTurn, turn, callTurn, hc, Call.isOver, hstage, Call.isGivenUp_of_live hcancelled, beginCall,
            hrequest, hclosed, Bool.false_eq_true, ↓reduceIte]
        rw [hrun, hturn]
        exact .late hclosed (stands_finish (s := { s with ready := s.ready.erase (.call k) }) hc _)
  · rcases calls_kept hm hc with hself | hsame
    · exact absurd hself hown
    · rw [view_calls_getElem?, view_calls_getElem?, hc] at hsame
      obtain ⟨c', hc', he⟩ := Option.map_eq_some_iff.1 hsame
      exact .waits (fun first hfirst => hown ⟨first, hfirst⟩) ⟨c', hc', (Prod.mk.inj he).2.trans hstage⟩

section Outcome

variable {settings : Settings} {kind : LinkKind} {address : Option String} {capacity : Option Nat}
  {wall : Stamp}

theorem Reachable.attentive (h : Reachable (start settings kind address capacity wall) s) : s.view.Attentive :=
  View.Steps.attentive (h.steps (coherent_start settings kind address capacity wall))
    (View.sound_start settings) ⟨nofun, nofun, nofun⟩

/-- The reply of a connection tells the first answer that reached it. -/
theorem firstAnswer_of_reply (h : s.view.Attentive) {d : Conn} (hd : s.conns[n]? = some d) :
    (∀ j, d.reply = .awaited j → s.firstAnswer n = none) ∧
      ∀ accepted, d.reply = .given accepted → s.firstAnswer n = some (.ofAnswer accepted) := by
  obtain ⟨story, hstory, hface, -, hheard, -⟩ := exists_story hd
  have hanswered := h.stories n story hstory
  unfold firstAnswer
  rw [← hheard]
  refine ⟨fun j hj => ?_, fun accepted hgiven => hanswered.given accepted (by rw [hface]; exact hgiven)⟩
  rw [hanswered.awaited j (by rw [hface]; exact hj)]
  rfl

/-- An open waits for the answer to a connection that there is, and that the user asked for. -/
theorem Awaits.exists_asked (ha : s.Awaits k n) (h : s.view.Attentive) :
    ∃ d, s.conns[n]? = some d ∧ d.reply ≠ .unasked := by
  obtain ⟨due, c, hc, hstage⟩ := ha
  obtain ⟨g, hg, hasked⟩ := h.own k n c.request due (by simp [hc, hstage])
  rw [view_faces_getElem?] at hg
  obtain ⟨d, hd, rfl⟩ := Option.map_eq_some_iff.1 hg
  exact ⟨d, hd, hasked⟩

theorem takeTurn_of_answering {due : Moment} (hc : s.calls[k]? = some c) (hstage : c.stage = .answering n due)
    (hlive : c.cancelled = false) (first : Bool) (hsees : ¬ (s.closed ∧ first)) :
    s.takeTurn (.call k) first =
      ({ s with ready := s.ready.erase (.call k) } : Session).awaitAnswer k n due := by
  simp only [takeTurn, turn, callTurn, hc, Call.isOver, hstage, Call.isGivenUp_of_live hlive, continueCall, hsees,
    Bool.false_eq_true, ↓reduceIte, reduceCtorEq]

/-- A connection that is closed takes and gives nothing, and nobody finds it. -/
theorem shut_of_closed (h : Reachable (start settings kind address capacity wall) s) {d : Conn}
    (hd : s.conns[n]? = some d) (hclosed : d.closed = true) : s.Shut n ∧ ∀ id, s.registry.get? id ≠ some n := by
  have hwindows := windows_of_sound h.sound hd
  refine ⟨⟨d, hd, hclosed, by simp [hwindows.1, hclosed], by simp [hwindows.2, hclosed]⟩, fun id hid => ?_⟩
  obtain ⟨e, he, -, hopen⟩ := entriesOpen_of_filed h.sound.coherent h.sound.filed id n hid
  rw [hd] at he
  cases he
  rw [hclosed] at hopen
  cases hopen

/-- A refused open closes its connection for good. -/
theorem shut_of_refused (h : Reachable (start settings kind address capacity wall) s)
    (ht : Reachable (start settings kind address capacity wall) t) {d : Conn} (hd : s.conns[n]? = some d)
    (ready ready' : List Fiber) (k : Nat)
    (hrun : t = { ((({ s with ready } : Session).refuse n).finish k (.failed .connectionRefused)) with
      ready := ready' }) : t.Shut n ∧ ∀ id, t.registry.get? id ≠ some n := by
  let r : Session := (({ s with ready } : Session).refuse n)
  have hv : r.view = ({ s.view with registry := (s.view.registry.delete d.id).1 } : View).setFace n d.face.shut :=
    view_refuse (s := { s with ready }) hd
  have hco : r.view.Coherent := by
    rw [hv]
    exact h.sound.coherent.delete d.id _ (by simp)
  obtain ⟨e, he, heclosed⟩ : ∃ e, r.conns[n]? = some e ∧ e.closed = true := by
    have hmark := congrArg View.marks hv
    rw [View.marks_setFace] at hmark
    have : r.view.marks[n]? = some (d.id, true) := by
      rw [hmark]
      exact List.getElem?_set_self (by simpa [View.marks, view] using (List.getElem?_eq_some_iff.1 hd).1)
    obtain ⟨e, he, -, hc⟩ := exists_of_mark this
    exact ⟨e, he, hc⟩
  obtain ⟨e', he', hclosed⟩ := exists_closed_reap
    (s := (r.setStage k (.over (.failed .connectionRefused))).note (.finished k (.failed .connectionRefused)))
    (by simpa [Event.isTraffic] using hco.setStage k _) he heclosed
  exact shut_of_closed ht (by rw [hrun]; exact he') hclosed

/-- An open that waits for its answer goes on to wait through every move but its own turn, which ends it as
the first answer says, if there was one. -/
theorem resolves_move (h : Reachable (start settings kind address capacity wall) s) (hawaits : s.Awaits k n)
    {m : Move} (hm : s.move? m = some t) : Resolves k n s t := by
  obtain ⟨d, hd, hasked⟩ := hawaits.exists_asked h.attentive
  obtain ⟨due, c, hc, hstage⟩ := hawaits
  rcases calls_kept hm hc with ⟨first, rfl⟩ | hsame
  · have ht := h.move _ hm
    simp only [move?] at hm
    split at hm <;> cases hm
    obtain ⟨ready, hrun⟩ := exists_run (.call k) first s
    let r : Session := { s with ready := s.ready.erase (.call k) }
    have hcr : r.calls[k]? = some c := hc
    obtain ⟨hnone, hsome⟩ := firstAnswer_of_reply h.attentive hd
    cases hcancelled : c.cancelled with
    | true =>
      obtain ⟨hdrops, hleaves⟩ := run_of_cancelled hc (.inr ⟨n, due, hstage⟩) hcancelled first
      exact .cancelled hdrops hleaves
    | false =>
      by_cases hsees : s.closed = true ∧ first = true
      · have hturn : (s.takeTurn (.call k) first).1 = r.finish k (.failed .sessionClosed) := by
          simp only [takeTurn, turn, callTurn, hc, Call.isOver, hstage, Call.isGivenUp_of_live hcancelled, continueCall,
            hsees, Bool.false_eq_true, ↓reduceIte, and_self, reduceCtorEq, r]
        rw [hrun, hturn]
        exact .ended (.inl hsees.1) (stands_finish hcr _)
      · have hdr : r.conns[n]? = some d := hd
        have hreply : Option.map Conn.reply r.conns[n]? = some d.reply := by rw [hdr]; rfl
        rw [takeTurn_of_answering hc hstage hcancelled first hsees,
          show _ = r.awaitAnswer k n due from rfl] at hrun
        unfold awaitAnswer at hrun
        rw [hreply] at hrun
        cases hanswer : d.reply with
        | unasked => exact absurd hanswer hasked
        | lost =>
          rw [hanswer] at hrun
          rw [hrun]
          exact .ended (.inr (by rw [hd, Option.map_some, hanswer])) (stands_finish hcr _)
        | awaited j =>
          rw [hanswer] at hrun
          dsimp only at hrun
          split at hrun
          · rw [hrun]
            exact .timedOut (hnone j hanswer) (stands_finish hcr _) (givesUp_finish _ k _ s)
          · split at hrun
            · rename_i hclosed
              rw [hrun]
              exact .ended (.inl hclosed) (stands_finish hcr _)
            · rw [hrun]
              exact .waits ⟨due, c, hcr, hstage⟩
        | given accepted =>
          have hfirst := hsome accepted hanswer
          rw [hanswer] at hrun
          cases accepted with
          | true =>
            rw [hrun]
            exact .accepted hfirst (stands_finish hcr _)
          | false =>
            dsimp only at hrun
            obtain ⟨hshut, hgone⟩ := shut_of_refused h ht hd _ ready k hrun
            have hcalls : (r.refuse n).calls[k]? = some c := by
              rw [refuse, hdr]
              exact (congrArg (·[k]?) (calls_changeConn ..)).trans hc
            refine .refused hfirst ?_ hshut hgone
            rw [hrun]
            exact stands_finish hcalls _
  · refine .waits ⟨due, ?_⟩
    rw [view_calls_getElem?, view_calls_getElem?, hc] at hsame
    obtain ⟨c', hc', he⟩ := Option.map_eq_some_iff.1 hsame
    exact ⟨c', hc', (Prod.mk.inj he).2.trans hstage⟩

/-! ### Whole runs -/

/-- The answers that came justify the stage that an open has come to. -/
inductive Justifies (s : Session) : CallStage → Prop
  | fresh : Justifies s .fresh
  | waits (n : Nat) (due : Moment) : Justifies s (.answering n due)
  | accepted (n : Nat) (answer : s.firstAnswer n = some .newConnOk) : Justifies s (.over (.conn n))
  /-- The connection is closed and registered no longer. -/
  | refused (n : Nat) (answer : s.firstAnswer n = some .newConnFail) (shut : s.Shut n)
      (gone : ∀ id, s.registry.get? id ≠ some n) : Justifies s (.over (.failed .connectionRefused))
  | timedOut : Justifies s (.over (.failed .openTimeout))
  | ended : Justifies s (.over (.failed .sessionClosed))
  | dropped : Justifies s .dropped

/-- An answer that reached a connection stays its first through every move. -/
theorem firstAnswer_move (h : Reachable (start settings kind address capacity wall) s) {m : Move}
    (hm : s.move? m = some t) {d : Conn} (hd : s.conns[n]? = some d) :
    ∃ e, t.conns[n]? = some e ∧ (d.closed = true → e.closed = true) ∧
      ∀ flag, s.firstAnswer n = some flag → t.firstAnswer n = some flag := by
  obtain ⟨story, hstory, hface, -, hheard, -⟩ := exists_story hd
  have hsteps : View.Steps anyOne s.view t.view :=
    steps_of_move? h.sound.coherent hm fun _ _ _ _ _ => trivial
  obtain ⟨story', hstory', hanswers, hclosed⟩ := hsteps.keeps_answer h.sound hstory
  have hface' := View.face_of_story hstory'
  rw [view_faces_getElem?] at hface'
  obtain ⟨e, he, heq⟩ := Option.map_eq_some_iff.1 hface'
  obtain ⟨story'', hstory'', -, -, hheard', -⟩ := exists_story he
  cases hstory'.symm.trans hstory''
  refine ⟨e, he, fun hc => ?_, fun flag hflag => ?_⟩
  · have hshut := hclosed (by rw [hface]; exact hc)
    rwa [← heq] at hshut
  · rw [firstAnswer, ← hheard] at hflag
    rw [firstAnswer, ← hheard']
    obtain ⟨rest, hrest⟩ := hanswers
    rw [← hrest, List.head?_append, hflag]
    rfl

/-- A connection that has heard an answer is there. -/
theorem exists_conn_of_firstAnswer (h : s.view.Sound settings) {flag : Flag} (hflag : s.firstAnswer n = some flag) :
    ∃ d, s.conns[n]? = some d := by
  have hmem := List.mem_of_head? hflag
  obtain ⟨frame, hframe, -⟩ := List.mem_map.1 (List.mem_filter.1 hmem).1
  obtain ⟨e, he, hpick⟩ := mem_history.1 hframe
  have hrouted : e.isTraffic = true ∧ e.conn? = some n := by
    cases e <;> simp only [Event.routed?, reduceCtorEq, Option.ite_none_right_eq_some] at hpick
    exact ⟨rfl, congrArg some hpick.1⟩
  have hlt := h.rooted e (List.mem_filter.2 ⟨he, hrouted.1⟩) n hrouted.2
  exact ⟨_, List.getElem?_eq_getElem (by simpa [view] using hlt)⟩

theorem Justifies.move {stage : CallStage} (hb : s.Justifies stage)
    (h : Reachable (start settings kind address capacity wall) s) {m : Move} (hm : s.move? m = some t) :
    t.Justifies stage := by
  cases hb with
  | fresh => exact .fresh
  | waits n due => exact .waits n due
  | accepted n answer =>
    obtain ⟨d, hd⟩ := exists_conn_of_firstAnswer h.sound answer
    obtain ⟨-, -, -, hkept⟩ := firstAnswer_move h hm hd
    exact .accepted n (hkept _ answer)
  | refused n answer shut =>
    obtain ⟨d, hd, hclosed, -⟩ := shut
    obtain ⟨e, he, hstays, hkept⟩ := firstAnswer_move h hm hd
    obtain ⟨hshut, hgone⟩ := shut_of_closed (h.move _ hm) he (hstays hclosed)
    exact .refused n (hkept _ answer) hshut hgone
  | timedOut => exact .timedOut
  | ended => exact .ended
  | dropped => exact .dropped

/-- The own turn of an open brings it from one such stage to another. -/
theorem became_own (h : Reachable (start settings kind address capacity wall) s) (hc : s.calls[k]? = some c)
    (hrequest : c.request = .openConn) (hb : s.Justifies c.stage) {first : Bool}
    (hm : s.move? (.run (.call k) first) = some t) : ∃ c', t.calls[k]? = some c' ∧ t.Justifies c'.stage := by
  have hover (he : c.isOver = true) : ∃ c', t.calls[k]? = some c' ∧ t.Justifies c'.stage := by
    refine ⟨c, ?_, hb.move h hm⟩
    simp only [move?] at hm
    split at hm <;> cases hm
    rw [calls_run]
    simp only [takeTurn, turn, callTurn, hc, he, ↓reduceIte]
  have hstands {stage : CallStage} (hs : t.Stands k stage) (hb : t.Justifies stage) :
      ∃ c', t.calls[k]? = some c' ∧ t.Justifies c'.stage := by
    obtain ⟨c', hc', he⟩ := hs
    exact ⟨c', hc', he ▸ hb⟩
  generalize hstage : c.stage = stage at hb
  cases hb with
  | fresh =>
    cases begins_move h.sound.coherent hc hrequest hstage hm with
    | asks id _ _ _ _ _ _ _ waits =>
      obtain ⟨due, hs⟩ := waits
      exact hstands hs (.waits _ due)
    | looks _ _ same => exact ⟨c, by rw [same]; exact hc, by rw [hstage]; exact .fresh⟩
    | late _ fails => exact hstands fails .ended
    | cancelled _ drops => exact hstands drops .dropped
    | waits other => exact absurd rfl (other first)
  | waits n due =>
    have hshown (hn : s.firstAnswer n = some .newConnFail ∨ s.firstAnswer n = some .newConnOk) :
        t.firstAnswer n = s.firstAnswer n := by
      rcases hn with hn | hn <;>
      · obtain ⟨d, hd⟩ := exists_conn_of_firstAnswer h.sound hn
        obtain ⟨-, -, -, hkept⟩ := firstAnswer_move h hm hd
        exact (hkept _ hn).trans hn.symm
    cases resolves_move h ⟨due, c, hc, hstage⟩ hm with
    | waits still =>
      obtain ⟨due, hs⟩ := still
      exact hstands hs (.waits n due)
    | accepted answer gives => exact hstands gives (.accepted n ((hshown (.inr answer)).trans answer))
    | refused answer fails shut gone =>
      exact hstands fails (.refused n ((hshown (.inl answer)).trans answer) shut gone)
    | timedOut _ fails => exact hstands fails .timedOut
    | cancelled drops => exact hstands drops .dropped
    | ended _ fails => exact hstands fails .ended
  | accepted | refused | timedOut | ended | dropped => exact hover (by rw [Call.isOver, hstage])

/-- Through every run. -/
theorem Reachable.justifies (h : Reachable (start settings kind address capacity wall) s) :
    ∀ (k : Nat) (c : Call), s.calls[k]? = some c → c.request = .openConn → s.Justifies c.stage := by
  induction h with
  | refl => exact nofun
  | @move s t m h hm ih =>
    intro k c' hc' hrequest
    rcases calls_move_cases hm k with ⟨first, rfl⟩ | hsame | ⟨-, request, hnew⟩
    · have hspares : (t.calls[k]?).map Call.request = (s.calls[k]?).map Call.request := by
        simp only [move?] at hm
        split at hm <;> cases hm
        exact (Spares.run first k s).request
      rw [hc'] at hspares
      obtain ⟨c, hc, hr⟩ := Option.map_eq_some_iff.1 hspares.symm
      have hopen : c.request = .openConn := hr.trans hrequest
      obtain ⟨c'', hc'', hb⟩ := became_own h hc hopen (ih k c hc hopen) hm
      cases hc'.symm.trans hc''
      exact hb
    · rw [view_calls_getElem?, view_calls_getElem?, hc'] at hsame
      obtain ⟨c, hc, he⟩ := Option.map_eq_some_iff.1 hsame.symm
      obtain ⟨hr, hs⟩ := Prod.mk.inj he
      exact hs ▸ (ih k c hc (hr.trans hrequest)).move h hm
    · rw [hc'] at hnew
      cases hnew
      exact .fresh

/-! ### Later answers -/

/-- An answer that is not awaited changes nothing. -/
theorem answer_of_not_awaited {d : Conn} (h : ∀ j, d.reply ≠ .awaited j) (accepted : Bool) :
    d.answer accepted = (d, []) := by
  unfold Conn.answer
  split
  · rename_i j hj
    exact absurd hj (h j)
  · rfl

theorem changeConn_self {d : Conn} (hd : s.conns[n]? = some d) {change : Conn → Conn × List Fiber}
    (h : change d = (d, [])) : s.changeConn n change = s := by
  obtain ⟨hlt, rfl⟩ := List.getElem?_eq_some_iff.1 hd
  simp [changeConn, hd, h, wake, joinLine]

/-- The frame leaves everything as it was, but that the session has heard it. -/
def Ignores (f : Frame) (n : Nat) (s : Session) : Prop := s.dispatch f = (s.hearing f).note (.routed n f)

theorem ignores_answer {d : Conn} (hd : s.conns[n]? = some d) (hreply : ∀ j, d.reply ≠ .awaited j)
    (hanswer : f.flag.isAnswer = true) (hto : s.addressee f.id = some n) : s.Ignores f n := by
  have hd' : ((s.hearing f).note (.routed n f)).conns[n]? = some d := hd
  obtain ⟨hrouted, accepted, happly⟩ : f.flag.isRouted = true ∧ ∃ accepted, ∀ t : Session,
      t.applyFrame n f = t.changeConn n (Conn.answer accepted) := by
    unfold applyFrame
    cases hflag : f.flag <;> rw [hflag] at hanswer <;> first
      | exact ⟨rfl, true, fun _ => rfl⟩
      | exact ⟨rfl, false, fun _ => rfl⟩
      | cases hanswer
  rw [Ignores, dispatch_of_addressee hrouted hto, happly]
  exact changeConn_self hd' (answer_of_not_awaited hreply accepted)

/-! ### Ids -/

/-- The user did not ask for a connection that the peer asked for. -/
theorem unasked_of_askedFor (h : Reachable (start settings kind address capacity wall) s) (hn : n ∈ s.askedFor)
    {d : Conn} (hd : s.conns[n]? = some d) : d.reply = .unasked := by
  have hview : s.view.askedFor = s.askedFor :=
    history_filter (fun e he => by cases e <;> first | rfl | cases he) s.trace
  obtain ⟨g, hg, hreply⟩ := h.announced.1.unasked n (hview ▸ hn)
  rw [view_faces_getElem?, hd] at hg
  cases hg
  exact hreply

theorem not_staged_of_asked (h : Reachable (start settings kind address capacity wall) s) {d : Conn}
    (hd : s.conns[n]? = some d) (hasked : d.reply ≠ .unasked) : n ∉ s.staged.state.toList := by
  intro hmem
  cases hclosed : s.closed with
  | true =>
    rw [show s.staged.state.toList = [] from h.sound.coherent.no_staged hclosed] at hmem
    cases hmem
  | false =>
    obtain ⟨rest, hrest, hstaged⟩ := h.receives.decided
    have hin : n ∈ s.askedFor := by
      rw [hrest, hstaged hclosed]
      exact List.mem_append_right _ hmem
    exact hasked (unasked_of_askedFor h hin hd)

/-- A state that a run from `init` leads to in which no refused open gave up this id after its connection was
closed and another one had got it. -/
inductive Undisplaced (id : Int32) (init : Session) : Session → Prop
  | refl : Undisplaced id init init
  | move {s s' : Session} (m : Move) : Undisplaced id init s →
      (∀ fiber first n d, m = .run fiber first → s.refused? fiber first = some n → s.conns[n]? = some d →
        d.id = id → d.closed = true → s.registry.get? id = none) →
      s.move? m = some s' → Undisplaced id init s'

theorem Undisplaced.reachable {init : Session} (h : Undisplaced id init s) : Reachable init s := by
  induction h with
  | refl => exact .refl
  | move m _ _ hm ih => exact ih.move m hm

theorem Undisturbed.undisplaced {init : Session} (h : Undisturbed init s) (id : Int32) :
    Undisplaced id init s := by
  induction h with
  | refl => exact .refl
  | move m _ hcalm hm ih =>
    refine ih.move m (fun fiber first n d he hn hd hid hclosed => ?_) hm
    subst he hid
    simpa [displaces, hn, hd, hclosed] using hcalm

theorem Undisplaced.agreesOn (h : Undisplaced id (start settings kind address capacity wall) s) :
    s.view.AgreesOn id := by
  induction h with
  | refl => exact nofun
  | @move s s' m h hkept hm ih =>
    have hsound := h.reachable.sound
    let may (v : View) (n : Nat) : Prop := v.marks[n]? = some (id, true) → v.registry.lookup id = none
    have hsteps : View.Steps may s.view s'.view := by
      refine steps_of_move? hsound.coherent hm fun fiber first n he hn hmark => ?_
      obtain ⟨d, hd, hid, hclosed⟩ := exists_of_mark hmark
      rw [← get?_eq_lookup hsound.coherent]
      exact hkept fiber first n d he hn hd hid hclosed
    have hall (w : View) (hw : View.Steps may s.view w) : w.AgreesOn id := by
      induction hw with
      | refl => exact ih
      | tail hsteps hstep ih =>
        have hfiled := View.Steps.filed hsteps hsound.filed
        exact (hstep.filing fun _ _ hl => ⟨false, hfiled.mark_of_lookup hl⟩).agreesOn hfiled (fun _ hk => hk) ih
    exact hall _ hsteps

/-- Of the connections under this id, those that the user asked for keep it as long as they are open. -/
structure KeepsId (id : Int32) (s : Session) : Prop where
  undrawn : ∀ (n : Nat) (d : Conn), s.conns[n]? = some d → d.id = id → d.reply ≠ .unasked → d.closed = false →
    ∀ ids, s.ids.draw s.registry.contains ≠ some (id, ids)
  apart : ∀ (j k n m : Nat) (d e : Conn), s.Awaits j n → s.Awaits k m → s.conns[n]? = some d →
    s.conns[m]? = some e → d.id = id → e.id = id → d.closed = false → e.closed = false → j = k

theorem Undisplaced.keepsId (h : Undisplaced id (start settings kind address capacity wall) s) : s.KeepsId id := by
  have hreach := h.reachable
  have hregistered {n : Nat} {d : Conn} (hd : s.conns[n]? = some d) (hid : d.id = id) (hasked : d.reply ≠ .unasked)
      (hopen : d.closed = false) : s.registry.get? id = some n := by
    rw [get?_eq_lookup hreach.sound.coherent]
    exact h.agreesOn n (hid ▸ hopen ▸ mark_of_conn hd) (not_staged_of_asked hreach hd hasked)
  have hwaiting {k n : Nat} {d : Conn} (hk : s.Awaits k n) (hd : s.conns[n]? = some d) : d.reply ≠ .unasked := by
    obtain ⟨d', hd', hasked⟩ := hk.exists_asked hreach.attentive
    cases hd.symm.trans hd'
    exact hasked
  refine ⟨fun n d hd hid hasked hopen ids hdraw => ?_, fun j k n m d e hj hk hd he hdid heid hdopen heopen => ?_⟩
  · have hfree := (IdSource.pos_and_free_of_draw hdraw).2
    rw [Registry.contains, hregistered hd hid hasked hopen] at hfree
    cases hfree
  · have hn := hregistered hd hdid (hwaiting hj hd) hdopen
    rw [hregistered he heid (hwaiting hk he) heopen] at hn
    obtain rfl := Option.some.inj hn
    obtain ⟨due, c, hc, hstage⟩ := hj
    obtain ⟨due', c', hc', hstage'⟩ := hk
    exact hreach.attentive.apart j k m c.request c'.request due due' (by simp [hc, hstage])
      (by simp [hc', hstage'])

/-! ### Every run -/

/-- What holds of the opens in the state `s` of a run from `init`. -/
structure SettlesOpens (init s : Session) : Prop where
  /-- The peer is asked once for each connection that the user asked for. -/
  requests : ∀ n d, s.conns[n]? = some d → (s.said n).filter (·.flag = .newConn) =
    if d.reply = .unasked then [] else [.control .newConn d.id]
  begins : ∀ k c m t, s.calls[k]? = some c → c.request = .openConn → c.stage = .fresh → s.move? m = some t →
    Begins k c m s t
  resolves : ∀ k n m t, s.Awaits k n → s.move? m = some t → Resolves k n s t
  justifies : ∀ (k : Nat) (c : Call), s.calls[k]? = some c → c.request = .openConn → s.Justifies c.stage
  /-- An answer to a connection that the peer asked for, or that has its answer, changes nothing. -/
  ignores : ∀ f n, f.flag.isAnswer = true → s.addressee f.id = some n →
    n ∈ s.askedFor ∨ s.firstAnswer n ≠ none → s.Ignores f n
  keeps : ∀ id, Undisplaced id init s → s.KeepsId id

/-- In every run, whatever the peer sends and whichever calls are given up. An open that begins registers its
connection under a free id, and asks the peer for it after that. It is accepted or refused as the first answer
says that reached the connection, and a later answer changes nothing. A refusal closes the connection and
removes it; an open that is given up leaves the registry and the connections as they are. As long as nothing
was displaced under an id, an open connection that the user asked for keeps it, and no other open gets it. -/
theorem first_answer_settles_open (h : Reachable (start settings kind address capacity wall) s) :
    SettlesOpens (start settings kind address capacity wall) s where
  requests n d hd := by
    obtain ⟨story, hstory, hface, hsaid, -⟩ := exists_story hd
    have hasked := (h.attentive.stories n story hstory).asked
    rwa [hface, hsaid] at hasked
  begins _ _ _ _ hc hrequest hstage hm := begins_move h.sound.coherent hc hrequest hstage hm
  resolves _ _ _ _ hawaits hm := resolves_move h hawaits hm
  justifies := h.justifies
  ignores f n hanswer hto hlate := by
    obtain ⟨d, hd, -⟩ := (entriesOpen_of_filed h.sound.coherent h.sound.filed).exists_of_addressee hto
    refine ignores_answer hd (fun j hj => ?_) hanswer hto
    rcases hlate with hin | hheard
    · rw [unasked_of_askedFor h hin hd] at hj
      cases hj
    · exact hheard ((firstAnswer_of_reply h.attentive hd).1 j hj)
  keeps _ hkept := hkept.keepsId

/-- Three opens. The peer accepts the first and refuses the second, and then says the contrary to both. -/
def contraries : List Move :=
  [.ask .openConn, .ask .openConn, .ask .openConn, .run (.call 0) true, .run (.call 1) true, .run (.call 2) true,
    .deliver [1, 1, 0, 0, 0, 2, 1, 0, 0, 0, 2, 2, 0, 0, 0, 1, 2, 0, 0, 0]] ++
  List.replicate 8 (.run .reader true) ++ [.run (.call 0) true, .run (.call 1) true]

/-- The first answers settle the first two opens, and the third one waits for its own under the id 3. -/
theorem contraries_settle_by_first_answer :
    ∃ s, Reachable (start (.build []) .tcp none none 0) s ∧
      (s.heard 0).map (·.flag) = [.newConnOk, .newConnFail] ∧
      (s.heard 1).map (·.flag) = [.newConnFail, .newConnOk] ∧
      s.calls.map (·.stage) = [.over (.conn 0), .over (.failed .connectionRefused),
        .answering 2 (Settings.build []).openTimeout] ∧
      s.KeepsId 3 ∧ SettlesOpens (start (.build []) .tcp none none 0) s := by
  have hplay : ((start (.build []) .tcp none none 0).playCalm contraries).any (fun s =>
      (s.heard 0).map (·.flag) = [.newConnOk, .newConnFail] ∧
      (s.heard 1).map (·.flag) = [.newConnFail, .newConnOk] ∧
      s.calls.map (·.stage) = [.over (.conn 0), .over (.failed .connectionRefused),
        .answering 2 (Settings.build []).openTimeout]) = true := by
    decide +kernel
  obtain ⟨s, hs, hend⟩ := (Option.any_eq_true _ _).1 hplay
  obtain ⟨hfirst, hsecond, hcalls⟩ := of_decide_eq_true hend
  have hundisturbed := undisturbed_of_playCalm .refl hs
  have hsettles := first_answer_settles_open hundisturbed.reachable
  exact ⟨s, hundisturbed.reachable, hfirst, hsecond, hcalls, hsettles.keeps 3 (hundisturbed.undisplaced 3), hsettles⟩

/-! ### Refusals that come late -/

/-- The open is given up before the peer refuses it, and then everybody has the turns that they are ready for. -/
def lateRefusal : List Move :=
  [.ask .openConn, .run (.call 0) true, .cancel 0, .run (.call 0) true, .deliver [2, 1, 0, 0, 0]] ++
  List.replicate 4 (.run .reader true) ++
  [.run (.call 0) true, .run .acceptor true, .run .pinger true, .run .pinger true, .run .returns true] ++
  List.replicate 5 (.run .writer true)

/-- The peer refuses an open and overflows its connection, and the open has yet to look. -/
def unheeded : List Move :=
  [.ask .openConn, .run (.call 0) true, .deliver [2, 1, 0, 0, 0, 3, 1, 0, 0, 0, 2, 0, 120, 120]] ++
  List.replicate 4 (.run .reader true)

/-- The handle is dropped while an open waits, and then that is given up. -/
def abandoned : List Move := [.ask .openConn, .run (.call 0) true, .dropHandle, .cancel 0]

/-- A refusal that comes after the open was given up leaves the connection open and registered. A refused open
whose connection is closed already may free the id of another one, once the counter has come round to it: then
two opens wait for an answer under one id. The last call on a session whose handle is gone takes the registry
with it when it is given up. And an open that finds all ids in use makes no connection. -/
theorem refusals_leave_and_displace :
    (∃ s d, Reachable (start (.build []) .tcp none none 0) s ∧ s.closed = false ∧ s.ready = [] ∧
      s.firstAnswer 0 = some .newConnFail ∧ s.Stands 0 .dropped ∧
      s.conns[0]? = some d ∧ d.closed = false ∧ s.registry.get? d.id = some 0) ∧
    (∃ s j k n m d e, Reachable (start (.build [.receiveWindow 1]) .tcp none none 0) s ∧ s.closed = false ∧
      s.Awaits j n ∧ s.Awaits k m ∧ s.conns[n]? = some d ∧ s.conns[m]? = some e ∧
      d.closed = false ∧ e.closed = false ∧ d.id = e.id ∧ j ≠ k) ∧
    (∃ s t, Reachable (start (.build []) .tcp none none 0) s ∧ s.closed = false ∧ s.registry.get? 1 = some 0 ∧
      s.move? (.run (.call 0) true) = some t ∧ t.Stands 0 .dropped ∧ t.registry.get? 1 = none) ∧
    ∃ s t k c, Reachable (start (.build []) .tcp none none 0) s ∧ s.closed = false ∧ s.calls[k]? = some c ∧
      c.request = .openConn ∧ c.stage = .fresh ∧ c.cancelled = false ∧
      s.move? (.run (.call k) true) = some t ∧ t.registry = s.registry ∧ t.conns = s.conns := by
  refine ⟨?_, ?_, ?_, exists_unserved (coherent_start (.build []) .tcp none none 0) .refl rfl rfl⟩
  · have hplay : ((start (.build []) .tcp none none 0).playCalm lateRefusal).any (fun s =>
        s.closed = false ∧ s.ready = [] ∧ s.firstAnswer 0 = some .newConnFail ∧
        (s.calls[0]?).any (fun c => c.stage = .dropped) ∧
        (s.conns[0]?).any (fun d => d.closed = false ∧ s.registry.get? d.id = some 0)) = true := by
      decide +kernel
    obtain ⟨s, hs, hend⟩ := (Option.any_eq_true _ _).1 hplay
    obtain ⟨hopen, hready, hanswer, hcall, hconn⟩ := of_decide_eq_true hend
    obtain ⟨c, hc, hstage⟩ := (Option.any_eq_true _ _).1 hcall
    obtain ⟨d, hd, hkept⟩ := (Option.any_eq_true _ _).1 hconn
    obtain ⟨hdopen, hfiled⟩ := of_decide_eq_true hkept
    exact ⟨s, d, (undisturbed_of_playCalm .refl hs).reachable, hopen, hready, hanswer,
      ⟨c, hc, of_decide_eq_true hstage⟩, hd, hdopen, hfiled⟩
  · have hplay : ((start (.build [.receiveWindow 1]) .tcp none none 0).playCalm unheeded).any (fun s =>
        s.closed = false ∧ s.handle = true ∧ Fiber.call 0 ∈ s.ready ∧ s.registry.contains 1 = false ∧
        (s.calls[0]?).any (fun c => c.cancelled = false ∧
          c.stage = .answering 0 (Settings.build [.receiveWindow 1]).openTimeout) ∧
        (s.conns[0]?).any (fun d => d.id = 1 ∧ d.reply = .given false)) = true := by
      decide +kernel
    obtain ⟨s, hs, hend⟩ := (Option.any_eq_true _ _).1 hplay
    obtain ⟨hopen, hhandle, hready, hfree, hcall, hconn⟩ := of_decide_eq_true hend
    obtain ⟨c, hc, hwaits⟩ := (Option.any_eq_true _ _).1 hcall
    obtain ⟨hlive, hstage⟩ := of_decide_eq_true hwaits
    obtain ⟨d, hd, hrefused⟩ := (Option.any_eq_true _ _).1 hconn
    obtain ⟨hid, hgiven⟩ := of_decide_eq_true hrefused
    have hco := coherent_start (.build [.receiveWindow 1]) .tcp none none 0
    have hreach := (undisturbed_of_playCalm .refl hs).reachable
    obtain ⟨t, j, k, n, m, e, f, ht, hrest⟩ := exists_shared_id hco hreach hopen hhandle hready hc hstage hlive hd
      hgiven (by rw [hid]; decide) (by rw [hid]; decide) (by rw [hid]; exact hfree)
    exact ⟨t, j, k, n, m, e, f, ht, hrest⟩
  · have hplay : ((start (.build []) .tcp none none 0).playCalm abandoned).any (fun s =>
        s.closed = false ∧ s.registry.get? 1 = some 0 ∧ (s.move? (.run (.call 0) true)).any (fun t =>
          (t.calls[0]?).any (fun c => c.stage = .dropped) ∧ t.registry.get? 1 = none)) = true := by
      decide +kernel
    obtain ⟨s, hs, hend⟩ := (Option.any_eq_true _ _).1 hplay
    obtain ⟨hopen, hentered, hnext⟩ := of_decide_eq_true hend
    obtain ⟨t, ht, hgone⟩ := (Option.any_eq_true _ _).1 hnext
    obtain ⟨hcall, hremoved⟩ := of_decide_eq_true hgone
    obtain ⟨c, hc, hstage⟩ := (Option.any_eq_true _ _).1 hcall
    exact ⟨s, t, (undisturbed_of_playCalm .refl hs).reachable, hopen, hentered, ht,
      ⟨c, hc, of_decide_eq_true hstage⟩, hremoved⟩

end Outcome

end Session

end StreamMux
