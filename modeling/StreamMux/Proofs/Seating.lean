import StreamMux.Proofs.Joint
import StreamMux.Proofs.Seats

/-! The seats of a session. Under an id a view has a seat, and words that are under way to the peer. As
long as no window is overrun before the peer has accepted its connection, the open connections are the
registered ones, and one that an open waits for is open. -/

namespace StreamMux

/-! ### Words -/

/-- What a frame says to the end that hears it. -/
def Flag.word? : Flag → Option Word
  | .newConn => some .ask
  | .newConnOk => some .yes
  | .newConnFail => some .no
  | .newMsg | .newMsgPart | .msgSendOk | .connClose => some .talk
  | .ping | .pingReturn => none

/-- What a frame says under an id. -/
def Outgoing.saying? (id : Int32) (out : Outgoing) : Option Saying :=
  if out.frame.id = id then out.frame.flag.word?.bind fun word => out.conn.map fun n => (word, n)
  else none

namespace Outgoing

variable {id : Int32} {out : Outgoing} {n : Nat}

theorem saying?_of_ne (h : out.frame.id ≠ id) : out.saying? id = none := if_neg h

theorem saying?_of_word {word : Word} (hid : out.frame.id = id) (hword : out.frame.flag.word? = some word)
    (hconn : out.conn = some n) : out.saying? id = some (word, n) := by
  simp only [saying?, hid, ↓reduceIte, hword, hconn, Option.bind_some, Option.map_some]

theorem exists_of_saying? {x : Saying} (h : out.saying? id = some x) :
    out.frame.id = id ∧ out.frame.flag.word? = some x.1 ∧ out.conn = some x.2 := by
  unfold saying? at h
  split at h
  · rename_i hid
    obtain ⟨word, hword, h⟩ := Option.bind_eq_some_iff.1 h
    obtain ⟨n, hn, rfl⟩ := Option.map_eq_some_iff.1 h
    exact ⟨hid, hword, hn⟩
  · cases h

/-- Only talk may overtake. -/
theorem lane_of_saying? {x : Saying} (h : out.saying? id = some x) (hx : x.1 ≠ .talk) :
    out.lane = .normal := by
  obtain ⟨-, hword, -⟩ := exists_of_saying? h
  unfold lane
  cases hf : out.frame.flag <;> rw [hf] at hword <;> first
    | rfl
    | exact absurd (Option.some.inj hword).symm hx
    | cases hword

end Outgoing

/-! ### Standing -/

/-- How far the connection has come. -/
def Reply.standing : Reply → Standing
  | .unasked => .unasked
  | .awaited _ | .lost => .asking
  | .given true => .accepted
  | .given false => .refused

@[simp] theorem Reply.settled_standing (r : Reply) : r.standing.settled = r.isSettled := by
  cases r with
  | given accepted => cases accepted <;> rfl
  | _ => rfl

@[simp] theorem Reply.standing_lose (r : Reply) : r.lose.standing = r.standing := by
  cases r <;> rfl

theorem Reply.standing_answer (accepted : Bool) {r : Reply} (h : r ≠ .lost) :
    (r.answer accepted).standing = r.standing.answer accepted := by
  cases r with
  | lost => exact absurd rfl h
  | given old => cases old <;> rfl
  | awaited call => cases accepted <;> rfl
  | unasked => rfl

/-- The connection that the acceptor has registered and not yet confirmed. -/
def AcceptorStage.publishing? : AcceptorStage → Option Nat
  | .publishing n => some n
  | _ => none

/-- A frame enters the queue at the end of its lane. -/
theorem Lanes.toList_push {α : Type} {l l' : Lanes α} {lane : Lane} {x : α}
    (h : l.push lane x = some l') : ∃ before after, l.toList = before ++ after ∧
      l'.toList = before ++ x :: after ∧ (lane = .normal → after = []) := by
  unfold Lanes.push at h
  split at h
  · cases h
  · cases lane with
    | priority =>
      cases h
      exact ⟨l.priority, l.normal, rfl, by simp [Lanes.toList], fun h => by cases h⟩
    | normal =>
      cases h
      exact ⟨l.toList, [], (List.append_nil _).symm, by simp [Lanes.toList], fun _ => rfl⟩

/-- A step leaves the reply as it was, loses it with the connection, or takes in an answer. -/
theorem Story.Step.reply {settings : Settings} {ended : Bool} {s s' : Story}
    (hs : Story.Step settings ended s s') : s'.face.reply = s.face.reply ∨
      s'.face.reply = s.face.reply.lose ∧ s'.face.closed = true ∨
      ∃ accepted, s'.face.reply = s.face.reply.answer accepted ∧ s'.face.closed = false := by
  cases hs with
  | serve | look | waste | enter | hollow | grant | farewell => exact .inl rfl
  | report | send | confirm => exact .inl (by rw [Story.face_say])
  | overflow | leave => exact .inl (by rw [Story.face_leave]; rfl)
  | shut => exact .inr (.inl ⟨rfl, rfl⟩)
  | deny => exact .inr (.inl ⟨by rw [Story.face_say]; rfl, by rw [Story.face_say]; rfl⟩)
  | @answer frame accepted hid hopen => exact .inr (.inr ⟨accepted, rfl, hopen⟩)

theorem Story.Step.unasked_iff {settings : Settings} {ended : Bool} {s s' : Story}
    (hs : Story.Step settings ended s s') : s'.face.reply = .unasked ↔ s.face.reply = .unasked := by
  rcases hs.reply with h | ⟨h, -⟩ | ⟨accepted, h, -⟩
  · rw [h]
  · rw [h]
    cases s.face.reply <;> simp [Reply.lose]
  · rw [h]
    cases s.face.reply <;> simp [Reply.answer]

/-- What stays of a connection: its id, who asked for it, that the peer knows it, and that it is closed. -/
structure Face.Kept (f g : Face) : Prop where
  id : g.id = f.id
  unasked : g.reply = .unasked ↔ f.reply = .unasked
  settled : f.reply.isSettled = true → g.reply.isSettled = true
  closed : f.closed = true → g.closed = true

theorem Face.Kept.refl (f : Face) : f.Kept f := ⟨rfl, Iff.rfl, fun h => h, fun h => h⟩

theorem Face.Kept.unsettled {f g : Face} (h : f.Kept g) (hg : g.reply.isSettled = false) :
    f.reply.isSettled = false :=
  Bool.eq_false_iff.2 fun hf => Bool.eq_false_iff.1 hg (h.settled hf)

theorem Story.Step.kept {settings : Settings} {ended : Bool} {s s' : Story}
    (hs : Story.Step settings ended s s') : s.face.Kept s'.face :=
  ⟨hs.keeps.1, hs.unasked_iff, hs.settled_reply.1, hs.keeps.2.1⟩

/-- Only a closed connection has lost its answer. -/
theorem Story.Step.lost {settings : Settings} {ended : Bool} {s s' : Story}
    (hs : Story.Step settings ended s s') (h : s.face.reply = .lost → s.face.closed = true)
    (hlost : s'.face.reply = .lost) : s'.face.closed = true := by
  rcases hs.reply with he | ⟨-, hclosed⟩ | ⟨accepted, he, -⟩
  · exact hs.keeps.2.1 (h (he ▸ hlost))
  · exact hclosed
  · refine hs.keeps.2.1 (h ?_)
    rw [hlost] at he
    cases hr : s.face.reply <;> rw [hr] at he <;> first | rfl | cases he

/-- A connection that is closed now is not accepted now. -/
theorem Story.Step.settled_of_closed {settings : Settings} {ended : Bool} {s s' : Story}
    (hs : Story.Step settings ended s s') (hclosed : s'.face.closed = true)
    (h : s'.face.reply.isSettled = true) : s.face.reply.isSettled = true := by
  rcases hs.reply with he | ⟨he, -⟩ | ⟨accepted, -, hopen⟩
  · rwa [he] at h
  · rw [he] at h
    cases hr : s.face.reply <;> rw [hr] at h <;> exact h
  · rw [hclosed] at hopen
    cases hopen

/-- A closed connection takes and hears nothing. -/
theorem Story.Step.of_closed {settings : Settings} {ended : Bool} {s s' : Story}
    (hs : Story.Step settings ended s s') (hclosed : s.face.closed = true) :
    s'.taken = s.taken ∧ s'.heard = s.heard := by
  have hopen {t : Story} (h : t.face.closed = false) (hc : t.face.closed = true) : False := by
    rw [h] at hc
    cases hc
  cases hs with
  | serve | look | waste | shut => exact ⟨rfl, rfl⟩
  | report | send | deny | confirm => exact ⟨Story.taken_say .., Story.heard_say ..⟩
  | enter _ h | overflow _ h | hollow _ h | answer _ h | grant _ h | farewell _ h | leave h =>
    exact (hopen h hclosed).elim

namespace View

variable {v w : View} {id : Int32} {n : Nat}

/-- The ids of the connections, and how far they have come. -/
def roles (v : View) : List (Int32 × Standing) := v.faces.map fun f => (f.id, f.reply.standing)

/-- How far a connection with this id has come. -/
def standing (id : Int32) (v : View) (n : Nat) : Option Standing :=
  v.roles[n]?.bind fun role => if role.1 = id then some role.2 else none

/-- The seat of an id. -/
def seat (id : Int32) (v : View) : Seat where
  live := !v.closed
  holder := v.registry.lookup id
  staged := v.staged.toList.filter fun n => (v.standing id n).isSome
  publishing := v.acceptor.publishing?.filter fun n => (v.standing id n).isSome
  standing := v.standing id

/-! ### What standings and seats depend on -/

@[simp] theorem roles_post (out : Outgoing) (v : View) : (v.post out).roles = v.roles := by simp [roles]

@[simp] theorem roles_addFace (f : Face) (v : View) :
    (v.addFace f).roles = v.roles ++ [(f.id, f.reply.standing)] := by
  simp [roles, addFace]

theorem roles_setFace {f g : Face} (hf : v.faces[n]? = some f) (hid : g.id = f.id)
    (hreply : g.reply.standing = f.reply.standing) : (v.setFace n g).roles = v.roles := by
  obtain ⟨hlt, rfl⟩ := List.getElem?_eq_some_iff.1 hf
  apply List.ext_getElem?
  intro m
  simp only [roles, setFace, List.getElem?_map, List.getElem?_set]
  by_cases hm : n = m
  · subst hm
    simp [hlt, hid, hreply]
  · simp [hm]

@[simp] theorem length_roles (v : View) : v.roles.length = v.faces.length := by simp [roles]

theorem standing_of_face {f : Face} (hf : v.faces[n]? = some f) :
    v.standing id n = if f.id = id then some f.reply.standing else none := by
  simp [standing, roles, hf]

theorem exists_of_standing {st : Standing} (h : v.standing id n = some st) :
    ∃ f, v.faces[n]? = some f ∧ f.id = id ∧ f.reply.standing = st := by
  simp only [standing, roles, List.getElem?_map, Option.bind_eq_some_iff, Option.map_eq_some_iff] at h
  obtain ⟨role, ⟨f, hf, rfl⟩, h⟩ := h
  split at h
  · rename_i hid
    exact ⟨f, hf, hid, Option.some.inj h⟩
  · cases h

theorem standing_congr (hr : w.roles = v.roles) : w.standing id = v.standing id := by
  funext n
  rw [standing, standing, hr]

theorem standing_length (v : View) : v.standing id v.faces.length = none := by
  simp [standing, roles]

theorem standing_of_lt {role : Int32 × Standing} (hr : w.roles = v.roles ++ [role])
    (hn : n < v.faces.length) : w.standing id n = v.standing id n := by
  rw [standing, standing, hr, List.getElem?_append_left (by simpa using hn)]

/-- A new connection. -/
theorem standing_append {role : Int32 × Standing} (hr : w.roles = v.roles ++ [role]) :
    w.standing id = if role.1 = id then Function.update (v.standing id) v.faces.length (some role.2)
      else v.standing id := by
  funext n
  have hn : w.standing id n = if n = v.faces.length then (if role.1 = id then some role.2 else none)
      else v.standing id n := by
    rcases Nat.lt_trichotomy n v.faces.length with hlt | rfl | hgt
    · rw [if_neg (Nat.ne_of_lt hlt), standing_of_lt hr hlt]
    · rw [if_pos rfl, standing, hr, ← length_roles, List.getElem?_concat_length]
      rfl
    · rw [if_neg (Nat.ne_of_gt hgt), standing, standing, hr,
        List.getElem?_eq_none (by rw [List.length_append, length_roles, List.length_singleton]; omega),
        List.getElem?_eq_none (by rw [length_roles]; omega)]
  rw [hn]
  by_cases hid : role.1 = id
  · by_cases he : n = v.faces.length
    · subst he
      simp [hid]
    · simp [hid, he]
  · by_cases he : n = v.faces.length
    · subst he
      simp [hid, standing_length]
    · simp [hid, he]

theorem seat_holder (hc : w.closed = v.closed) (hs : w.staged.toList = v.staged.toList)
    (ha : w.acceptor = v.acceptor) (hr : w.roles = v.roles) :
    w.seat id = { v.seat id with holder := w.registry.lookup id } := by
  simp only [seat, hc, hs, ha, standing_congr hr]

theorem seat_congr (hc : w.closed = v.closed) (he : w.registry = v.registry)
    (hs : w.staged = v.staged) (ha : w.acceptor = v.acceptor) (hr : w.roles = v.roles) :
    w.seat id = v.seat id := by
  rw [seat_holder hc (congrArg Lanes.toList hs) ha hr, he]
  rfl

/-! ### What is under way -/

/-- What is under way under an id, if the peer has heard so many frames. -/
def sayings (id : Int32) (heard : Nat) (v : View) : List Saying :=
  (v.started.drop heard ++ v.outbox.toList).filterMap (·.saying? id)

/-- From one view to the other this is said under the id, or nothing. -/
def Spoken (id : Int32) (v w : View) (said : Option Saying) : Prop :=
  ∀ heard ≤ v.started.length, Says said (v.sayings id heard) (w.sayings id heard)

theorem spoken_same (hs : w.started = v.started) (ho : w.outbox = v.outbox) : Spoken id v w none := by
  intro heard _
  rw [sayings, sayings, hs, ho]
  exact .silent (.refl _)

theorem spoken_post {x : View} {out : Outgoing} (hco : x.Coherent) (hopen : x.closed = false)
    (hs : x.started = v.started) (ho : x.outbox = v.outbox) (hws : w.started = (x.post out).started)
    (hwo : w.outbox = (x.post out).outbox) : Spoken id v w (out.saying? id) := by
  intro heard _
  have hpush := outbox_post hco hopen out
  rw [started_post, hs] at hws
  rw [ho, ← hwo] at hpush
  obtain ⟨before, after, hv, hw, hafter⟩ := Lanes.toList_push hpush
  have hwords (l : List Outgoing) : (v.started.drop heard ++ (before ++ l)).filterMap (·.saying? id) =
      (v.started.drop heard ++ before).filterMap (·.saying? id) ++ l.filterMap (·.saying? id) := by
    rw [← List.append_assoc, List.filterMap_append]
  rw [sayings, sayings, hws, hv, hw, hwords, hwords]
  cases hx : out.saying? id with
  | none =>
    rw [List.filterMap_cons_none hx]
    exact .silent (.refl _)
  | some x =>
    rw [List.filterMap_cons_some hx]
    refine .utters fun hne => ?_
    rw [hafter (Outgoing.lane_of_saying? hx hne)]
    rfl

/-- The writer takes a frame from the queue. -/
theorem spoken_start {lanes : Lanes Outgoing} {out : Outgoing} (ht : v.outbox.take = (lanes, some out)) :
    Spoken id v (({ v with outbox := lanes }).note (.started out)) none := by
  intro heard hle
  have hstarted : (({ v with outbox := lanes }).note (.started out)).started = v.started ++ [out] :=
    started_note ..
  have hsame : (({ v with outbox := lanes }).note (.started out)).sayings id heard = v.sayings id heard := by
    rw [sayings, sayings, hstarted, List.drop_append_of_le_length hle, Lanes.toList_of_take ht,
      List.append_assoc]
    rfl
  rw [hsame]
  exact .silent (.refl _)

/-- The queue is dropped. -/
theorem spoken_dropped (hs : w.started = v.started) (ho : w.outbox.toList = []) :
    Spoken id v w none := by
  intro heard _
  rw [sayings, sayings, hs, ho, List.append_nil]
  exact .silent ((List.sublist_append_left ..).filterMap _)

/-! ### What comes in -/

/-- What the view takes in is the next frame from the peer, if anything: it is sent for a connection if it
concerns one, and a request comes from the connection that is tied to the new one. -/
inductive Took (tied : Nat → Nat → Prop) (v w : View) : Option Outgoing → Prop
  | nothing (dispatched : w.dispatched = v.dispatched) : Took tied v w none
  | frame (out : Outgoing) (dispatched : w.dispatched = v.dispatched ++ [out.frame])
      (conn : out.frame.flag.forConn = true → ∃ m, out.conn = some m)
      (tie : out.frame.flag = .newConn → ∀ m, out.conn = some m → tied m v.faces.length) :
      Took tied v w (some out)

section Took

variable {tied : Nat → Nat → Prop} {peer : Option Outgoing} {frame : Frame}

theorem Took.silent (h : Took tied v w peer) (hd : w.dispatched = v.dispatched) : peer = none := by
  cases h with
  | nothing => rfl
  | frame out dispatched =>
    rw [hd] at dispatched
    exact absurd dispatched (by simp)

theorem Took.heard (h : Took tied v w peer) (hd : w.dispatched = v.dispatched ++ [frame]) :
    ∃ out, peer = some out ∧ out.frame = frame ∧
      (frame.flag.forConn = true → ∃ m, out.conn = some m) ∧
      (frame.flag = .newConn → ∀ m, out.conn = some m → tied m v.faces.length) := by
  cases h with
  | nothing dispatched =>
    rw [hd] at dispatched
    exact absurd dispatched (by simp)
  | frame out dispatched conn tie =>
    rw [dispatched] at hd
    obtain rfl : out.frame = frame := by simpa using hd
    exact ⟨out, rfl, rfl, conn, tie⟩

end Took

/-- A connection under the id that the peer has not accepted has heard a segment that its window did not
take. -/
def Overrun (id : Int32) (v : View) : Prop :=
  ∃ n f, v.faces[n]? = some f ∧ f.id = id ∧ f.reply.isSettled = false ∧
    v.taken n ≠ segmentsOf (v.heard n)

/-- What a session keeps under an id that is never overrun: its open connections are registered, and one
that an open waits for is open. -/
structure Placed (id : Int32) (v : View) : Prop where
  agrees : v.AgreesOn id
  lost : ∀ f ∈ v.faces, f.reply = .lost → f.closed = true
  /-- At most one call waits for the answer to a connection. -/
  single : ∀ (j k n : Nat) (q r : Request) (d e : Moment), v.calls[j]? = some (q, .answering n d) →
    v.calls[k]? = some (r, .answering n e) → j = k
  waiting : v.closed = false → ∀ (k n : Nat) (r : Request) (d : Moment) (f : Face),
    v.calls[k]? = some (r, .answering n d) → v.faces[n]? = some f → f.id = id →
    f.reply.isSettled = false → f.closed = false

/-! ### What a step keeps -/

section Keeps

variable {may may' : View → Nat → Prop} {settings : Settings}

/-- Only the refusal of an open asks for leave. -/
theorem Step.allow (hs : Step may v w)
    (h : ∀ {call n : Nat} {request : Request} {due : Moment} {f : Face},
      v.calls[call]? = some (request, .answering n due) → v.faces[n]? = some f →
      f.reply = .given false → may' v n) : Step may' v w := by
  cases hs with
  | refuse asked hf given => exact .refuse asked hf given (h asked hf given)
  | award asked hf given => exact .award asked hf given
  | accept asked hp => exact .accept asked hp
  | serve asked hf hs => exact .serve asked hf hs
  | _ => constructor <;> assumption

theorem calls_setStage {x : View} {call k : Nat} {stage st : CallStage} {r : Request}
    (h : (x.setStage call stage).calls[k]? = some (r, st)) :
    x.calls[k]? = some (r, st) ∨ k = call ∧ st = stage := by
  simp only [setStage, List.getElem?_modify] at h
  obtain ⟨c, hc, h⟩ := Option.map_eq_some_iff.1 h
  split at h
  · rename_i hk
    exact .inr ⟨hk.symm, (Prod.mk.inj h).2.symm⟩
  · exact .inl (hc.trans (congrArg some h))

/-- A call that waits for an answer did so before, or has just asked for a new connection. -/
theorem Step.answering (hs : Step may v w) : ∃ call, ∀ (k n : Nat) (r : Request) (d : Moment),
    w.calls[k]? = some (r, .answering n d) → v.calls[k]? = some (r, .answering n d) ∨
      k = call ∧ n = v.faces.length ∧ ∀ g, w.faces[n]? = some g → g.closed = false ∧ g.reply ≠ .unasked := by
  have hkeep {x : View} {call : Nat} {stage : CallStage} (hx : x.calls = v.calls)
      (hst : ∀ n d, stage ≠ .answering n d) (k n : Nat) (r : Request) (d : Moment)
      (h : (x.setStage call stage).calls[k]? = some (r, .answering n d)) :
      v.calls[k]? = some (r, .answering n d) := by
    rw [← hx]
    exact (calls_setStage h).resolve_right fun ⟨_, he⟩ => hst n d he.symm
  cases hs with
  | ask request =>
    refine ⟨0, fun k n r d h => .inl ?_⟩
    rcases Nat.lt_or_ge k v.calls.length with hlt | hge
    · rwa [List.getElem?_append_left hlt] at h
    · rw [List.getElem?_append_right hge, List.getElem?_singleton] at h
      split at h <;> cases h
  | goOn call stage plain =>
    exact ⟨0, fun k n r d h => .inl (hkeep rfl (fun n d he => by rw [he] at plain; cases plain) k n r d h)⟩
  | @request call id due asked running pos free =>
    refine ⟨call, fun k n r d h => ?_⟩
    rcases calls_setStage h with h | ⟨rfl, hst⟩
    · exact .inl (by simpa [addFace] using h)
    · cases hst
      refine .inr ⟨rfl, rfl, fun g hg => ?_⟩
      have hg : some (Face.make v.settings id (.awaited k)) = some g := by
        simpa [setStage, addFace] using hg
      cases hg
      exact ⟨rfl, by simp [Face.make]⟩
  | award | refuse | accept | serve => exact ⟨0, fun k n r d h => .inl (hkeep rfl (by simp) k n r d h)⟩
  | send => exact ⟨0, fun k n r d h => .inl (hkeep (by simp [setFace]) (by simp) k n r d h)⟩
  | report | leave | ping | echo | overflow | turnAway | publish =>
    exact ⟨0, fun k n r d h => .inl (by simpa [setFace, note] using h)⟩
  | look | waste | start | stage | stageLate | discard | enter | hollow | answer | grant | farewell
  | register | retire | close => exact ⟨0, fun k n r d h => .inl h⟩

theorem faces_closeConn_of_ne {m : Nat} (h : m ≠ n) : (v.closeConn m).faces[n]? = v.faces[n]? := by
  refine closeConn_cases (P := fun w => w.faces[n]? = v.faces[n]?) rfl fun f hf hopen => ?_
  rw [closeConn_of_open hf hopen]
  exact List.getElem?_set_ne h

theorem faces_closeConn_self {f : Face} (hf : v.faces[n]? = some f) (hopen : f.closed = false) :
    (v.closeConn n).faces[n]? = some f.close := by
  rw [closeConn_of_open hf hopen]
  exact List.getElem?_set_self (List.getElem?_eq_some_iff.1 hf).1

/-- Closing a connection leaves every history but that of the queue as it was. -/
theorem history_closeConn {β : Type} {pick : Event → Option β} (hpick : ∀ out, pick (.queued out) = none)
    (n : Nat) (v : View) : history pick (v.closeConn n).deeds = history pick v.deeds := by
  refine closeConn_cases (P := fun w => history pick w.deeds = history pick v.deeds) rfl
    fun f hf hopen => ?_
  rw [closeConn_of_open hf hopen]
  show history pick (v.sayClosed n f).deeds = history pick v.deeds
  unfold sayClosed post
  split
  · rfl
  · split
    · rfl
    · rw [history_cons, hpick, Option.toList_none, List.append_nil]

@[simp] theorem dispatched_closeConn (n : Nat) (v : View) : (v.closeConn n).dispatched = v.dispatched :=
  history_closeConn (fun _ => rfl) n v

/-- A connection has heard one segment more than its window took, if the window refuses that. -/
theorem taken_ne_of_overflow (h : v.Sound settings) {frame : Frame} {data : Bytes} {part : Bool} {f : Face}
    (hf : v.faces[n]? = some f) (hseg : IsSegment frame data part) :
    (((v.note (.dispatched frame)).note (.routed n frame)).closeConn n).taken n ≠
      segmentsOf ((((v.note (.dispatched frame)).note (.routed n frame)).closeConn n).heard n) := by
  have htaken : (((v.note (.dispatched frame)).note (.routed n frame)).closeConn n).taken n = v.taken n := by
    rw [taken, history_closeConn fun _ => rfl]
    simp [note, taken, Event.buffered?]
  have hheard : (((v.note (.dispatched frame)).note (.routed n frame)).closeConn n).heard n =
      v.heard n ++ [frame] := by
    rw [heard, history_closeConn fun _ => rfl]
    simp [note, heard, Event.routed?]
  obtain ⟨s, hs, -⟩ := exists_story hf
  have hsound := h.stories n s hs
  have hle := hsound.taken_prefix.length_le
  rw [eq_of_story hs] at hle
  dsimp only at hle
  rw [htaken, hheard, segmentsOf_append]
  intro he
  have hone : (segmentsOf [frame]).length = 1 := by simp [segmentsOf, segment?_of_isSegment hseg]
  rw [he, List.length_append] at hle
  omega

/-- A connection is closed by the end of the session, by its user or before it has one, by a segment that
its window refuses, or as its open is refused. -/
theorem Step.closes (hs : Step may v w) (h : v.Sound settings) {f g : Face} (hf : v.faces[n]? = some f)
    (hg : w.faces[n]? = some g) (hopen : f.closed = false) (hclosed : g.closed = true) :
    w.closed = true ∨ v.Held n ∨ w.taken n ≠ segmentsOf (w.heard n) ∨
      ∃ (call : Nat) (r : Request) (d : Moment), v.calls[call]? = some (r, .answering n d) ∧
        w.calls[call]? = some (r, .over (.failed .connectionRefused)) := by
  have hlt := (List.getElem?_eq_some_iff.1 hf).1
  have hsame (hw : w.faces = v.faces) : False := by
    rw [hw, hf] at hg
    cases hg
    exact absurd (hopen.symm.trans hclosed) (by decide)
  have hset {m : Nat} {h h' : Face} (hm : v.faces[m]? = some h) (hw : w.faces = v.faces.set m h')
      (hc : h'.closed = h.closed) : False := by
    rw [hw, List.getElem?_set] at hg
    split at hg
    · rename_i hmn
      subst hmn
      rw [hf] at hm
      cases hm
      rw [if_pos hlt] at hg
      cases hg
      exact absurd (hopen.symm.trans (hc.symm.trans hclosed)) (by decide)
    · rw [hf] at hg
      cases hg
      exact absurd (hopen.symm.trans hclosed) (by decide)
  have hadd (h : Face) (hw : w.faces = v.faces ++ [h]) : False := by
    rw [hw, List.getElem?_append_left hlt, hf] at hg
    cases hg
    exact absurd (hopen.symm.trans hclosed) (by decide)
  have hone {m : Nat} (hw : m ≠ n → w.faces[n]? = v.faces[n]?) : m = n := by
    refine Decidable.byContradiction fun hne => ?_
    rw [hw hne, hf] at hg
    cases hg
    exact absurd (hopen.symm.trans hclosed) (by decide)
  cases hs with
  | ask | goOn | award | accept | start | discard | hollow | register | retire => exact (hsame rfl).elim
  | ping | echo | publish => exact (hsame (by simp [note])).elim
  | @request call id due =>
    exact (hadd (.make v.settings id (.awaited call)) (by simp [setStage, addFace])).elim
  | stage | stageLate => exact (hadd _ rfl).elim
  | serve asked hm | look hm | waste hm | enter hseg hto hm | answer hflag hto hm | grant hflag hto hm
  | farewell hflag hto hm => exact (hset hm rfl rfl).elim
  | report asked hm => exact (hset hm (post_faces ..) rfl).elim
  | send asked hstage hm => exact (hset hm (post_faces ..) rfl).elim
  | @refuse call m request due h asked hm given =>
    obtain rfl : m = n := hone fun hne => List.getElem?_set_ne hne
    refine .inr (.inr (.inr ⟨call, request, due, asked, ?_⟩))
    simp [setStage, setFace, asked]
  | @leave m held =>
    obtain rfl : m = n := hone fun hne => faces_closeConn_of_ne hne
    exact .inr (.inl (.inl held))
  | @turnAway lanes m h running ht hm hr =>
    obtain rfl : m = n := hone fun hne => by simp [setFace, hne]
    refine .inr (.inl (.inr (.inr (.inr ?_))))
    rw [Lanes.toList_of_take ht]
    exact List.mem_cons_self
  | @overflow frame data part m h' cause hseg hto hm hw =>
    obtain rfl : m = n := hone fun hne => faces_closeConn_of_ne hne
    exact .inr (.inr (.inl (taken_ne_of_overflow h hm hseg)))
  | close => exact .inl rfl

/-- A connection keeps its place, and its story goes on by one step or not at all. -/
theorem Step.follows (hs : Step may v w) (h : v.Sound settings) {f : Face} (hf : v.faces[n]? = some f) :
    ∃ s s', v.story n = some s ∧ s.face = f ∧ w.story n = some s' ∧
      (s' = s ∨ Story.Step v.settings v.closed s s') := by
  obtain ⟨s, hs₀, hface⟩ := exists_story hf
  obtain ⟨s', hs', hstep⟩ := (hs.continues h.filed h.rooted n).goes_on hs₀
  exact ⟨s, s', hs₀, hface, hs', hstep⟩

theorem Step.exists_kept (hs : Step may v w) (h : v.Sound settings) {f : Face}
    (hf : v.faces[n]? = some f) : ∃ g, w.faces[n]? = some g ∧ f.Kept g := by
  obtain ⟨s, s', -, rfl, hs', hstep⟩ := hs.follows h hf
  refine ⟨s'.face, face_of_story hs', ?_⟩
  rcases hstep with rfl | hstep
  · exact .refl _
  · exact hstep.kept

theorem Step.kept_face (hs : Step may v w) (h : v.Sound settings) {f g : Face}
    (hf : v.faces[n]? = some f) (hg : w.faces[n]? = some g) : f.Kept g := by
  obtain ⟨g', hg', hkept⟩ := hs.exists_kept h hf
  rw [hg] at hg'
  cases hg'
  exact hkept

/-- Whatever a connection missed it has missed for good. -/
theorem Step.overrun (hs : Step may v w) (h : v.Sound settings) (hover : v.Overrun id) : w.Overrun id := by
  obtain ⟨n, f, hf, hid, hunsettled, hmissed⟩ := hover
  obtain ⟨s, s', hs₀, rfl, hs', hstep⟩ := hs.follows h hf
  refine ⟨n, s'.face, face_of_story hs', ?_⟩
  have hclosed : s.face.closed = true := by
    refine Bool.of_not_eq_false fun hopen => hmissed ?_
    have := (h.stories n s hs₀).taken_all hopen
    rwa [eq_of_story hs₀] at this
  have htaken : v.taken n = s.taken ∧ v.heard n = s.heard := by
    rw [eq_of_story hs₀]
    exact ⟨rfl, rfl⟩
  have htaken' : w.taken n = s'.taken ∧ w.heard n = s'.heard := by
    rw [eq_of_story hs']
    exact ⟨rfl, rfl⟩
  rw [htaken.1, htaken.2] at hmissed
  rw [htaken'.1, htaken'.2]
  rcases hstep with rfl | hstep
  · exact ⟨hid, hunsettled, hmissed⟩
  · obtain ⟨hkeep, hheard⟩ := hstep.of_closed hclosed
    refine ⟨hstep.kept.id.trans hid, Bool.eq_false_iff.2 fun hset => ?_, by rwa [hkeep, hheard]⟩
    rw [hstep.settled_of_closed (hstep.kept.closed hclosed) hset] at hunsettled
    cases hunsettled

/-- A refusal gives up no id that another connection has. -/
theorem Placed.refused (h : v.Sound settings) (hp : v.Placed id) {call : Nat} {r : Request} {d : Moment}
    {f : Face} (asked : v.calls[call]? = some (r, .answering n d)) (hf : v.faces[n]? = some f)
    (given : f.reply = .given false) (hmark : v.marks[n]? = some (id, true)) :
    v.registry.lookup id = none := by
  rw [marks_getElem? hf] at hmark
  obtain ⟨hid, hclosed⟩ := Prod.mk.inj (Option.some.inj hmark)
  cases hrun : v.closed
  · rw [hp.waiting hrun call n r d f asked hf hid (by rw [given]; rfl)] at hclosed
    cases hclosed
  · rw [Registry.lookup, h.coherent.no_entries hrun]
    rfl

/-- At most one call waits for the answer to a connection. -/
def WaitApart (v : View) : Prop :=
  ∀ (j k n : Nat) (q r : Request) (d e : Moment), v.calls[j]? = some (q, .answering n d) →
    v.calls[k]? = some (r, .answering n e) → j = k

theorem lt_of_answering (h : v.Sound settings) {k : Nat} {r : Request} {d : Moment}
    (hk : v.calls[k]? = some (r, .answering n d)) : n < v.faces.length := by
  rw [← length_marks]
  exact h.filed.handed_lt n (.inr (.inr (.inr ⟨_, List.mem_of_getElem? hk, d, rfl⟩)))

theorem Step.waitApart (hs : Step may v w) (h : v.Sound settings) (hapart : v.WaitApart) : w.WaitApart := by
  intro j k n q r d e hj hk
  obtain ⟨call, hcall⟩ := hs.answering
  rcases hcall j n q d hj with hj | ⟨rfl, hn, -⟩ <;> rcases hcall k n r e hk with hk | ⟨rfl, hn', -⟩
  · exact hapart j k n q r d e hj hk
  · have := lt_of_answering h hj
    omega
  · have := lt_of_answering h hk
    omega
  · rfl

theorem Step.placed (hs : Step may v w) (h : v.Sound settings) (hp : v.Placed id)
    (hroom : ¬ w.Overrun id) : w.Placed id where
  agrees := by
    have hs : Step (fun v n => v.marks[n]? = some (id, true) → v.registry.lookup id = none) v w :=
      hs.allow fun asked hf given hmark => hp.refused h asked hf given hmark
    exact (hs.filing fun _ _ hl => ⟨false, h.filed.mark_of_lookup hl⟩).agreesOn h.filed
      (fun n hn hmark => hn hmark) hp.agrees
  lost f hmem hlost := by
    obtain ⟨n, hn⟩ := List.mem_iff_getElem?.1 hmem
    obtain ⟨s', hs', rfl⟩ := exists_story hn
    rcases (hs.continues h.filed h.rooted n).comes_from hs' with ⟨s, hs₀, hstep⟩ | ⟨hborn, -⟩
    · have hold := hp.lost _ (List.mem_of_getElem? (face_of_story hs₀))
      rcases hstep with rfl | hstep
      · exact hold hlost
      · exact hstep.lost hold hlost
    · cases hborn <;> cases hlost
  single := hs.waitApart h hp.single
  waiting hrun k n r d g hk hg hid hunsettled := by
    cases hclosed : g.closed
    · rfl
    · exfalso
      have hrun₀ := hs.running hrun
      obtain ⟨call, hcall⟩ := hs.answering
      rcases hcall k n r d hk with hk₀ | ⟨-, -, hopen⟩
      · obtain ⟨f, hf, hfid, hfun⟩ : ∃ f, v.faces[n]? = some f ∧ f.id = id ∧
            f.reply.isSettled = false := by
          have hf := List.getElem?_eq_getElem (lt_of_answering h hk₀)
          have hkept := hs.kept_face h hf hg
          exact ⟨_, hf, hkept.id.symm.trans hid, hkept.unsettled hunsettled⟩
        have hopen := hp.waiting hrun₀ k n r d f hk₀ hf hfid hfun
        rcases hs.closes h hf hg hopen hclosed with hend | hheld | hmissed | ⟨l, q, e, hl, hl'⟩
        · rw [hrun] at hend
          cases hend
        · obtain ⟨f', hf', hset⟩ := h.vouched.held n hheld
          rw [hf] at hf'
          cases hf'
          rw [hfun] at hset
          cases hset
        · exact hroom ⟨n, g, hg, hid, hunsettled, hmissed⟩
        · obtain rfl := hp.single l k n q r e d hl hk₀
          rw [hk] at hl'
          cases hl'
      · rw [(hopen g hg).1] at hclosed
        cases hclosed

end Keeps

end View

end StreamMux
