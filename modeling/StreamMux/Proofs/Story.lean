import StreamMux.Proofs.Filing

/-! The story of one connection: its face with the frames queued for it, those routed to it, and what
passed through its receive window. A step of a view is a step of at most one story of those that there
are, except that the end of a session closes many connections at once. -/

namespace StreamMux

/-- The connection that an event is about. -/
def Event.conn? : Event → Option Nat
  | .queued out => out.conn
  | .routed n _ | .buffered n _ | .handedOut n _ => some n
  | _ => none

structure Story where
  face : Face
  /-- The frames queued for the connection. -/
  said : List Frame := []
  /-- The frames routed to it. -/
  heard : List Frame := []
  /-- The segments that its receive window took. -/
  taken : List Segment := []
  /-- What its readers were given. -/
  given : List Taken := []

namespace Story

/-- Take in an event of the connection `n`. -/
def learn (n : Nat) (e : Event) (s : Story) : Story :=
  if e.conn? = some n then
    match e with
    | .queued out => { s with said := s.said ++ [out.frame] }
    | .routed _ frame => { s with heard := s.heard ++ [frame] }
    | .buffered _ segment => { s with taken := s.taken ++ [segment] }
    | .handedOut _ taken => { s with given := s.given ++ [taken] }
    | _ => s
  else s

/-- The story of a connection with this face, from the events since the start. -/
def tell (n : Nat) (f : Face) (deeds : List Event) : Story := deeds.foldr (learn n) { face := f }

/-- A frame is queued, or dropped after the end of the session. -/
def say (ended : Bool) (frame : Frame) (s : Story) : Story :=
  if ended then s else { s with said := s.said ++ [frame] }

/-- A frame is routed to the connection. -/
def hear (frame : Frame) (s : Story) : Story := { s with heard := s.heard ++ [frame] }

/-- Closed on this side; the peer is told, unless it closed first. -/
def leave (ended : Bool) (s : Story) : Story :=
  if s.face.closing then { s with face := s.face.close }
  else ({ s with face := s.face.close }).say ended (.control .connClose s.face.id)

/-! What saying something and closing leave as it was. -/

section Fields

variable (ended : Bool) (frame : Frame) (s : Story)

theorem face_say : (s.say ended frame).face = s.face := by cases ended <;> rfl

theorem heard_say : (s.say ended frame).heard = s.heard := by cases ended <;> rfl

theorem taken_say : (s.say ended frame).taken = s.taken := by cases ended <;> rfl

theorem face_leave : (s.leave ended).face = s.face.close := by
  unfold leave
  split
  · rfl
  · exact face_say ..

theorem heard_leave : (s.leave ended).heard = s.heard := by
  unfold leave
  split
  · rfl
  · exact heard_say ..

theorem taken_leave : (s.leave ended).taken = s.taken := by
  unfold leave
  split
  · rfl
  · exact taken_say ..

end Fields

variable {n : Nat} {e : Event} {s : Story}

theorem learn_of_ne (h : e.conn? ≠ some n) : s.learn n e = s := if_neg h

theorem tell_cons (n : Nat) (f : Face) (e : Event) (deeds : List Event) :
    tell n f (e :: deeds) = (tell n f deeds).learn n e := rfl

theorem learn_face (n : Nat) (e : Event) (s : Story) (g : Face) :
    ({ s with face := g } : Story).learn n e = { s.learn n e with face := g } := by
  unfold learn
  split
  · cases e <;> rfl
  · rfl

theorem tell_face (n : Nat) (f g : Face) (deeds : List Event) :
    tell n g deeds = { tell n f deeds with face := g } := by
  induction deeds with
  | nil => rfl
  | cons e deeds ih => rw [tell_cons, tell_cons, ih, learn_face]

@[simp] theorem face_learn (n : Nat) (e : Event) (s : Story) : (s.learn n e).face = s.face := by
  unfold learn
  split
  · cases e <;> rfl
  · rfl

@[simp] theorem face_tell (n : Nat) (f : Face) (deeds : List Event) : (tell n f deeds).face = f := by
  induction deeds with
  | nil => rfl
  | cons e deeds ih => rw [tell_cons, face_learn, ih]

/-- Events that are not about the connection tell nothing of it. -/
theorem tell_of_apart {f : Face} {deeds : List Event} (h : ∀ e ∈ deeds, e.conn? ≠ some n) :
    tell n f deeds = { face := f } := by
  induction deeds with
  | nil => rfl
  | cons e deeds ih =>
    rw [tell_cons, ih fun e he => h e (List.mem_cons_of_mem _ he), learn_of_ne (h e List.mem_cons_self)]

/-! ### Steps of a story -/

/-- One step of a connection of a session with these settings that has ended or not. -/
inductive Step (settings : Settings) (ended : Bool) : Story → Story → Prop
  | serve {s : Story} {want : Want} {receive : ReceiveWindow} {taken : Taken}
      (hs : s.face.receive.serve want = (receive, some taken)) :
      Step settings ended s { s with face := { s.face with receive }, given := s.given ++ [taken] }
  | look {s : Story} {want : Want} {receive : ReceiveWindow}
      (hs : s.face.receive.serve want = (receive, none)) :
      Step settings ended s { s with face := { s.face with receive } }
  | report {s : Story} {receive : ReceiveWindow} {credit : UInt32} (hclosed : s.face.closed = false)
      (hclosing : s.face.closing = false)
      (hc : s.face.receive.takeCredit settings.maxSegment = (receive, some credit)) :
      Step settings ended s
        (({ s with face := { s.face with receive } }).say ended (.sendOk s.face.id credit))
  | send {s : Story} {want credit : Nat} {data : Bytes} {part : Bool} {send : SendWindow}
      (running : ended = false) (ha : s.face.send.acquire want = (send, some (some credit)))
      (hlen : data.length = credit) :
      Step settings ended s
        (({ s with face := { s.face with send } }).say ended (.data s.face.id data part))
  | waste {s : Story} {want credit : Nat} {send : SendWindow} (hended : ended = true)
      (ha : s.face.send.acquire want = (send, some (some credit))) :
      Step settings ended s { s with face := { s.face with send } }
  | enter {s : Story} {frame : Frame} {data : Bytes} {part : Bool} {receive : ReceiveWindow}
      (hid : frame.id = s.face.id) (hopen : s.face.closed = false)
      (hseg : View.IsSegment frame data part)
      (hw : s.face.receive.write s.face.id data part = .ok receive) :
      Step settings ended s
        { s.hear frame with face := { s.face with receive }, taken := s.taken ++ [⟨data, part⟩] }
  | overflow {s : Story} {frame : Frame} {data : Bytes} {part : Bool} {cause : MuxError}
      (hid : frame.id = s.face.id) (hopen : s.face.closed = false)
      (hseg : View.IsSegment frame data part)
      (hw : s.face.receive.write s.face.id data part = .error cause) :
      Step settings ended s ((s.hear frame).leave ended)
  | hollow {s : Story} {frame : Frame} (hid : frame.id = s.face.id) (hopen : s.face.closed = false)
      (hflag : frame.flag.isData = true) (hp : frame.payload = none) :
      Step settings ended s (s.hear frame)
  | answer {s : Story} {frame : Frame} {accepted : Bool} (hid : frame.id = s.face.id)
      (hopen : s.face.closed = false)
      (hflag : frame.flag = if accepted then .newConnOk else .newConnFail) :
      Step settings ended s
        { s.hear frame with face := { s.face with reply := s.face.reply.answer accepted } }
  | grant {s : Story} {frame : Frame} (hid : frame.id = s.face.id) (hopen : s.face.closed = false)
      (hflag : frame.flag = .msgSendOk) :
      Step settings ended s
        { s.hear frame with face := { s.face with send := s.face.send.grant frame.window } }
  | farewell {s : Story} {frame : Frame} (hid : frame.id = s.face.id) (hopen : s.face.closed = false)
      (hflag : frame.flag = .connClose) :
      Step settings ended s { s.hear frame with face := s.face.closeByPeer }
  /-- The user closes the connection. -/
  | leave {s : Story} (hopen : s.face.closed = false) : Step settings ended s (s.leave ended)
  /-- The connection is closed without a word, or with a refusal. -/
  | shut {s : Story} : Step settings ended s { s with face := s.face.shut }
  | deny {s : Story} :
      Step settings ended s (({ s with face := s.face.shut }).say ended (.control .newConnFail s.face.id))
  | confirm {s : Story} : Step settings ended s (s.say ended (.control .newConnOk s.face.id))

/-- A story begins: the connection is asked for by the user or by the peer, or comes too late. -/
inductive Born (settings : Settings) : Story → Prop
  | own (id : Int32) (call : Nat) :
      Born settings { face := .make settings id (.awaited call), said := [.control .newConn id] }
  | peer (id : Int32) : Born settings { face := .make settings id .unasked }
  | late (id : Int32) : Born settings { face := (Face.make settings id .unasked).shut }

end Story

namespace View

/-- The story of a connection. -/
def story (n : Nat) (v : View) : Option Story := v.faces[n]?.map fun f => .tell n f v.deeds

/-- Every event is about a connection that there is. -/
def Rooted (v : View) : Prop := ∀ e ∈ v.deeds, ∀ n, e.conn? = some n → n < v.faces.length

variable {v w : View} {n : Nat} {may : View → Nat → Prop}

theorem face_of_story {s : Story} (h : v.story n = some s) : v.faces[n]? = some s.face := by
  obtain ⟨f, hf, rfl⟩ := Option.map_eq_some_iff.1 h
  simpa using hf

theorem story_of_face {f : Face} (h : v.faces[n]? = some f) :
    v.story n = some (.tell n f v.deeds) := by
  simp [story, h]

theorem story_note (e : Event) (v : View) (n : Nat) :
    (v.note e).story n = (v.story n).map (Story.learn n e) := by
  simp only [story, note, Option.map_map]
  rfl

theorem story_post (out : Outgoing) (v : View) (n : Nat) :
    (v.post out).story n =
      (v.story n).map fun s => if out.conn = some n then s.say v.closed out.frame else s := by
  cases hc : v.closed
  · have : (v.post out).story n = (v.story n).map (Story.learn n (.queued out)) := by
      simp only [story, post, hc, Bool.false_eq_true, ↓reduceIte, Option.map_map]
      rfl
    rw [this]
    rfl
  · rw [post_of_closed out hc]
    simp [Story.say]

theorem story_setFace (m : Nat) (g : Face) (v : View) (n : Nat) :
    (v.setFace m g).story n = (v.story n).map fun s => if m = n then { s with face := g } else s := by
  have hdeeds : (v.setFace m g).deeds = v.deeds := rfl
  by_cases hmn : m = n
  · subst hmn
    rcases hf : v.faces[m]? with _ | f
    · have hle := List.getElem?_eq_none_iff.1 hf
      simp [story, setFace, hle]
    · have hlt := (List.getElem?_eq_some_iff.1 hf).1
      have hg : (v.setFace m g).faces[m]? = some g := by simp [setFace, hlt]
      rw [story_of_face hf, story_of_face hg, Option.map_some, if_pos rfl, hdeeds, Story.tell_face m f g]
  · have hn : (v.setFace m g).faces[n]? = v.faces[n]? := by simp [setFace, hmn]
    simp only [story, hn, hmn, ↓reduceIte, Option.map_id', hdeeds]

theorem story_congr (hf : w.faces = v.faces) (hd : w.deeds = v.deeds) : w.story n = v.story n := by
  rw [story, story, hf, hd]

@[simp] theorem story_setStage (call : Nat) (stage : CallStage) (v : View) (n : Nat) :
    (v.setStage call stage).story n = v.story n := rfl

/-- A connection that is made leaves the stories of the others as they are, and starts one. -/
theorem story_addFace (hroot : v.Rooted) (f : Face) (n : Nat) :
    (v.addFace f).story n = if n = v.faces.length then some { face := f } else v.story n := by
  unfold story addFace
  split
  · rename_i hn
    subst hn
    simp only [List.getElem?_concat_length, Option.map_some, Option.some.injEq]
    refine Story.tell_of_apart fun e he hc => ?_
    exact absurd (hroot e he _ hc) (Nat.lt_irrefl _)
  · rename_i hn
    rcases Nat.lt_or_ge n v.faces.length with hlt | hge
    · simp [List.getElem?_append_left hlt]
    · have : v.faces.length < n := by omega
      rw [List.getElem?_eq_none (by simp; omega), List.getElem?_eq_none hge]

theorem story_sayClosed (m : Nat) (f : Face) (v : View) (n : Nat) :
    (v.sayClosed m f).story n = (v.story n).map fun s =>
      if m = n ∧ f.closing = false then s.say v.closed (.control .connClose f.id) else s := by
  unfold sayClosed
  cases hcg : f.closing
  · rw [if_neg (by simp), story_post]
    simp
  · simp

theorem story_closeConn (m : Nat) (v : View) (n : Nat) :
    (v.closeConn m).story n = (v.story n).map fun s =>
      if m = n ∧ s.face.closed = false then s.leave v.closed else s := by
  rcases hf : v.faces[m]? with _ | f
  · have : v.closeConn m = v := by simp only [closeConn, hf]
    rw [this]
    by_cases hmn : m = n
    · subst hmn
      simp [story, hf]
    · simp [hmn]
  · cases hopen : f.closed
    · rw [closeConn_of_open hf hopen]
      have hset : View.story n { v.sayClosed m f with
          faces := v.faces.set m f.close, registry := (v.registry.delete f.id).1 } =
          ((v.sayClosed m f).setFace m f.close).story n := by
        refine story_congr ?_ rfl
        simp [setFace]
      rw [hset, story_setFace, story_sayClosed]
      by_cases hmn : m = n
      · subst hmn
        rw [story_of_face hf]
        cases hcg : f.closing <;> cases hc : v.closed <;> simp [Story.leave, Story.say, hopen, hcg]
      · simp [hmn]
    · rw [closeConn_of_closed hf hopen]
      by_cases hmn : m = n
      · subst hmn
        rw [story_of_face hf]
        simp [hopen]
      · simp [hmn]

theorem story_shutAll (conns : List Nat) (v : View) (n : Nat) :
    (v.shutAll conns).story n =
      (v.story n).map fun s => if n ∈ conns then { s with face := s.face.shut } else s := by
  have hdeeds : (v.shutAll conns).deeds = v.deeds := rfl
  simp only [story, shutAll_getElem?, Option.map_map, hdeeds]
  congr 1
  funext f
  by_cases hn : n ∈ conns
  · simp only [hn, Function.comp_apply, ↓reduceIte, Story.face_tell]
    exact Story.tell_face n f f.shut v.deeds
  · simp [hn, Function.comp_apply]

/-! ### What a step does to the stories -/

/-- A story goes on by at most one step, or it begins, at a frame from the peer if the user did not ask
for it. -/
def Continues (v w : View) (n : Nat) : Prop :=
  (∃ s s', v.story n = some s ∧ w.story n = some s' ∧
    (s' = s ∨ Story.Step v.settings v.closed s s')) ∨
  (v.story n = none ∧ ∀ s', w.story n = some s' → Story.Born v.settings s' ∧
    (s'.face.reply = .unasked →
      ∃ frame, frame.flag = .newConn ∧ frame.id = s'.face.id ∧ .dispatched frame ∈ w.deeds))

theorem Continues.of_map (change : Story → Story) (hw : w.story n = (v.story n).map change)
    (hstep : ∀ s, v.story n = some s → change s = s ∨ Story.Step v.settings v.closed s (change s)) :
    Continues v w n := by
  rcases hs : v.story n with _ | s
  · refine .inr ⟨hs, fun s' hs' => ?_⟩
    rw [hw, hs] at hs'
    cases hs'
  · exact .inl ⟨s, change s, hs, by rw [hw, hs]; rfl, hstep s hs⟩

theorem Continues.of_eq (hw : w.story n = v.story n) : Continues v w n :=
  .of_map id (by simpa using hw) fun _ _ => .inl rfl

/-- A story goes on by one step or not at all. -/
theorem Continues.goes_on (h : Continues v w n) {s : Story} (hs : v.story n = some s) :
    ∃ s', w.story n = some s' ∧ (s' = s ∨ Story.Step v.settings v.closed s s') := by
  rcases h with ⟨s₀, s', hs₀, hs', hstep⟩ | ⟨hnone, -⟩
  · rw [hs] at hs₀
    cases hs₀
    exact ⟨s', hs', hstep⟩
  · rw [hs] at hnone
    cases hnone

/-- A story is one from before, at most one step on, or it begins. -/
theorem Continues.comes_from (h : Continues v w n) {s' : Story} (hs' : w.story n = some s') :
    (∃ s, v.story n = some s ∧ (s' = s ∨ Story.Step v.settings v.closed s s')) ∨
      Story.Born v.settings s' ∧ (s'.face.reply = .unasked →
        ∃ frame, frame.flag = .newConn ∧ frame.id = s'.face.id ∧ .dispatched frame ∈ w.deeds) := by
  rcases h with ⟨s, s₁, hs, hs₁, hstep⟩ | ⟨-, hborn⟩
  · rw [hs'] at hs₁
    cases hs₁
    exact .inl ⟨s, hs, hstep⟩
  · exact .inr (hborn s' hs')

/-- From one view to the other only the story of the connection `m` changes. -/
def Touch (m : Nat) (change : Story → Story) (v w : View) : Prop :=
  ∀ n, w.story n = (v.story n).map fun s => if m = n then change s else s

namespace Touch

variable {m : Nat} {change : Story → Story} {x : View}

/-- What is no part of a story changes. -/
theorem same (hf : w.faces = v.faces) (hd : w.deeds = v.deeds) : Touch m id v w := fun n => by
  rw [story_congr hf hd]
  simp

theorem story_eq (h : Touch m id v w) (n : Nat) : w.story n = v.story n := (h n).trans (by simp)

theorem then_ {c : Story → Story} (h : Touch m change v x) (hw : Touch m c x w) :
    Touch m (fun s => c (change s)) v w := by
  intro n
  rw [hw n, h n, Option.map_map]
  congr 1
  funext s
  by_cases hmn : m = n <;> simp [hmn]

/-- An event that is about no connection. -/
theorem pass (h : Touch m change v x) {e : Event} (he : e.conn? = none) :
    Touch m change v (x.note e) := by
  intro n
  rw [story_note, h n, Option.map_map]
  congr 1
  funext s
  exact Story.learn_of_ne (by simp [he])

theorem hear (h : Touch m change v x) (frame : Frame) :
    Touch m (fun s => (change s).hear frame) v (x.note (.routed m frame)) := by
  refine h.then_ (c := fun s => s.hear frame) fun n => ?_
  rw [story_note]
  congr 1
  funext s
  by_cases hmn : m = n <;> simp [Story.learn, Story.hear, Event.conn?, hmn]

theorem take (h : Touch m change v x) (segment : Segment) :
    Touch m (fun s => { change s with taken := (change s).taken ++ [segment] }) v
      (x.note (.buffered m segment)) := by
  refine h.then_ (c := fun s => { s with taken := s.taken ++ [segment] }) fun n => ?_
  rw [story_note]
  congr 1
  funext s
  by_cases hmn : m = n <;> simp [Story.learn, Event.conn?, hmn]

theorem give (h : Touch m change v x) (taken : Taken) :
    Touch m (fun s => { change s with given := (change s).given ++ [taken] }) v
      (x.note (.handedOut m taken)) := by
  refine h.then_ (c := fun s => { s with given := s.given ++ [taken] }) fun n => ?_
  rw [story_note]
  congr 1
  funext s
  by_cases hmn : m = n <;> simp [Story.learn, Event.conn?, hmn]

theorem setFace (h : Touch m change v x) (g : Face) :
    Touch m (fun s => { change s with face := g }) v (x.setFace m g) :=
  h.then_ (c := fun s => { s with face := g }) (story_setFace m g x)

theorem post (h : Touch m change v x) {out : Outgoing} (hout : out.conn = some m)
    (hclosed : x.closed = v.closed) :
    Touch m (fun s => (change s).say v.closed out.frame) v (x.post out) := by
  refine h.then_ (c := fun s => s.say v.closed out.frame) fun n => ?_
  rw [story_post, hout, hclosed]
  simp only [Option.some.injEq]

theorem closeConn (h : Touch m change v x) (hclosed : x.closed = v.closed) :
    Touch m (fun s => if (change s).face.closed = false then (change s).leave v.closed else change s) v
      (x.closeConn m) := by
  refine h.then_ (c := fun s => if s.face.closed = false then s.leave v.closed else s) fun n => ?_
  rw [story_closeConn, hclosed]
  congr 1
  funext s
  by_cases hmn : m = n <;> simp [hmn]

end Touch

/-- The story of a connection that is touched takes a step. -/
theorem Continues.of_touch {m : Nat} {f : Face} {change : Story → Story} (hf : v.faces[m]? = some f)
    (hw : Touch m change v w)
    (hstep : ∀ s : Story, s.face = f → Story.Step v.settings v.closed s (change s)) :
    Continues v w n := by
  refine .of_map _ (hw n) fun s hs => ?_
  by_cases hmn : m = n
  · subst hmn
    have := face_of_story hs
    rw [hf] at this
    rw [if_pos rfl]
    exact .inr (hstep s (Option.some.inj this).symm)
  · exact .inl (if_neg hmn)

theorem length_take_of_acquire {f f' : SendWindow} {data : Bytes} {written limit credit : Nat}
    (ha : f.acquire (min (data.length - written) limit) = (f', some (some credit))) :
    ((data.drop written).take credit).length = credit := by
  have hle := SendWindow.le_of_acquire ha
  simp only [List.length_take, List.length_drop]
  omega

/-- The story of a connection that is made begins, and no other changes. -/
theorem Continues.of_addFace {f : Face} (hroot : v.Rooted) (hw : w.story n = (v.addFace f).story n)
    (hborn : Story.Born v.settings { face := f })
    (hframe : ∃ frame, frame.flag = .newConn ∧ frame.id = f.id ∧ .dispatched frame ∈ w.deeds) :
    Continues v w n := by
  rw [story_addFace hroot] at hw
  by_cases hn : n = v.faces.length
  · refine .inr ⟨by simp [story, hn], fun s' hs' => ?_⟩
    rw [hw, if_pos hn] at hs'
    cases hs'
    exact ⟨hborn, fun _ => hframe⟩
  · exact .of_eq (hw.trans (if_neg hn))

/-- A connection that the user asks for begins with its request. -/
theorem continues_request {call : Nat} {id : Int32} (hroot : v.Rooted) (due : Moment) (running : v.closed = false) :
    Continues v ((({ v.addFace (.make v.settings id (.awaited call)) with
      registry := { v.registry with entries := v.registry.entries ++ [(id, v.faces.length)] } }).post
        { frame := .control .newConn id, conn := some v.faces.length }).setStage call
          (.answering v.faces.length due)) n := by
  have hnew : View.story n ({ v.addFace (.make v.settings id (.awaited call)) with
      registry := { v.registry with entries := v.registry.entries ++ [(id, v.faces.length)] } }) =
      (v.addFace (.make v.settings id (.awaited call))).story n := rfl
  have hw := story_post { frame := .control .newConn id, conn := some v.faces.length }
    ({ v.addFace (.make v.settings id (.awaited call)) with
      registry := { v.registry with entries := v.registry.entries ++ [(id, v.faces.length)] } }) n
  rw [hnew, story_addFace hroot] at hw
  by_cases hn : n = v.faces.length
  · refine .inr ⟨by simp [story, hn], fun s' hs' => ?_⟩
    rw [story_setStage, hw, if_pos hn] at hs'
    simp only [Option.map_some, hn, ↓reduceIte, Option.some.injEq] at hs'
    rw [← hs']
    have : v.closed = false := running
    simp only [addFace, Story.say, this, Bool.false_eq_true, ↓reduceIte]
    exact ⟨.own id call, fun h => by cases h⟩
  · refine .of_eq ?_
    rw [story_setStage, hw, if_neg hn]
    simp [Ne.symm hn]

/-- A frame reaches an open connection under its id, whose story takes a step. -/
theorem Continues.of_routed {frame : Frame} {m : Nat} {f : Face} {change : Story → Story} (hfiled : v.Filed)
    (hto : v.addressee frame.id = some m) (hf : v.faces[m]? = some f)
    (hw : Touch m change v w)
    (hstep : ∀ s : Story, s.face = f → frame.id = s.face.id → s.face.closed = false →
      Story.Step v.settings v.closed s (change s)) : Continues v w n := by
  refine .of_touch hf hw fun s he => ?_
  obtain ⟨g, hg, -, hl⟩ := exists_of_addressee hto
  have hm := hfiled.mark_of_lookup hl
  rw [marks_getElem? hf] at hm
  obtain ⟨hid, hopen⟩ := Prod.mk.inj (Option.some.inj hm)
  exact hstep s he (he ▸ hid.symm) (he ▸ hopen)

/-- What comes in from the peer. -/
theorem touch_routed {frame : Frame} {m : Nat} :
    Touch m (fun s => s.hear frame) v ((v.note (.dispatched frame)).note (.routed m frame)) :=
  .hear (.pass (.same rfl rfl) rfl) frame

theorem Step.continues (hs : Step may v w) (hfiled : v.Filed) (hroot : v.Rooted) (n : Nat) :
    Continues v w n := by
  cases hs with
  | ask | goOn | award | accept | register | retire => exact .of_eq rfl
  | start | discard => exact .of_eq (Touch.story_eq (m := n) (.pass (.same rfl rfl) rfl) n)
  | ping => exact .of_eq (by simp [story_post])
  | echo =>
    refine .of_eq ?_
    rw [story_post, Touch.story_eq (m := n) (.pass (.same rfl rfl) rfl) n]
    simp
  | request due asked running => exact continues_request hroot due running
  | refuse asked hf => exact .of_touch hf (.setFace (.same rfl rfl) _) fun s he => he ▸ .shut
  | serve asked hf hs =>
    refine .of_touch hf (.give (.setFace (.same rfl rfl) _) _) fun s he => ?_
    subst he
    exact .serve hs
  | look hf hs =>
    refine .of_touch hf (.setFace (.same rfl rfl) _) fun s he => ?_
    subst he
    exact .look hs
  | report asked hf hclosed hclosing hc =>
    refine .of_touch hf (.post (.setFace (.same rfl rfl) _) rfl rfl) fun s he => ?_
    subst he
    exact .report hclosed hclosing hc
  | send asked hstage hf running ha =>
    refine .of_touch hf (.post (.setFace (.same rfl rfl) _) rfl rfl) fun s he => ?_
    subst he
    exact .send running ha (length_take_of_acquire ha)
  | waste hf ended ha =>
    refine .of_touch hf (.setFace (.same rfl rfl) _) fun s he => ?_
    subst he
    exact .waste ended ha
  | leave m held =>
    refine .of_map _ (story_closeConn m v n) fun s hs => ?_
    split
    · rename_i h
      exact .inr (.leave h.2)
    · exact .inl rfl
  | @stage frame hflag running =>
    exact .of_addFace hroot (Touch.story_eq (m := n) (.pass (.pass (.same rfl rfl) rfl) rfl) n) (.peer _)
      ⟨frame, hflag, rfl, by simp [note]⟩
  | @stageLate frame hflag ended =>
    exact .of_addFace hroot (Touch.story_eq (m := n) (.pass (.pass (.same rfl rfl) rfl) rfl) n) (.late _)
      ⟨frame, hflag, rfl, by simp [note]⟩
  | enter hseg hto hf hw =>
    refine .of_routed hfiled hto hf (.take (.setFace touch_routed _) _) fun s he hid hopen => ?_
    subst he
    exact .enter hid hopen hseg hw
  | @overflow frame data part m f cause hseg hto hf hw =>
    refine .of_routed hfiled hto hf (.closeConn touch_routed rfl) fun s he hid hopen => ?_
    subst he
    rw [if_pos (show (Story.hear frame s).face.closed = false from hopen)]
    exact .overflow hid hopen hseg hw
  | hollow hflag hp hto =>
    obtain ⟨f, hf, -⟩ := exists_of_addressee hto
    exact .of_routed hfiled hto hf touch_routed fun s _ hid hopen => .hollow hid hopen hflag hp
  | answer hflag hto hf =>
    refine .of_routed hfiled hto hf (.setFace touch_routed _) fun s he hid hopen => ?_
    subst he
    exact .answer hid hopen hflag
  | grant hflag hto hf =>
    refine .of_routed hfiled hto hf (.setFace touch_routed _) fun s he hid hopen => ?_
    subst he
    exact .grant hid hopen hflag
  | farewell hflag hto hf =>
    refine .of_routed hfiled hto hf (.setFace touch_routed _) fun s he hid hopen => ?_
    subst he
    exact .farewell hid hopen hflag
  | turnAway running ht hf hr =>
    exact .of_touch hf (.post (.setFace (.same rfl rfl) _) rfl rfl) fun s he => he ▸ .deny
  | publish hp hf => exact .of_touch hf (.post (.same rfl rfl) rfl rfl) fun s he => he ▸ .confirm
  | close =>
    refine .of_map _ (story_shutAll _ v n) fun s hs => ?_
    split
    · exact .inr .shut
    · exact .inl rfl

/-! ### Every event has its connection -/

namespace Rooted

theorem frame (h : v.Rooted) (hd : w.deeds = v.deeds) (hf : v.faces.length ≤ w.faces.length) :
    w.Rooted := fun e he n hn => Nat.lt_of_lt_of_le (h e (hd ▸ he) n hn) hf

theorem note (h : v.Rooted) {e : Event} (he : ∀ n, e.conn? = some n → n < v.faces.length) :
    (v.note e).Rooted := by
  intro d hd n hn
  rcases List.mem_cons.1 hd with rfl | hd
  · exact he n hn
  · exact h d hd n hn

theorem pass (h : v.Rooted) {e : Event} (he : e.conn? = none) : (v.note e).Rooted :=
  h.note fun n hn => by rw [he] at hn; cases hn

theorem setFace (h : v.Rooted) (m : Nat) (f : Face) : (v.setFace m f).Rooted :=
  h.frame rfl (by simp [View.setFace])

theorem addFace (h : v.Rooted) (f : Face) : (v.addFace f).Rooted :=
  h.frame rfl (by simp [View.addFace])

theorem setStage (h : v.Rooted) (call : Nat) (stage : CallStage) : (v.setStage call stage).Rooted :=
  h.frame rfl (Nat.le_refl _)

theorem post (h : v.Rooted) {out : Outgoing} (ho : ∀ n, out.conn = some n → n < v.faces.length) :
    (v.post out).Rooted := by
  cases hc : v.closed
  · have : (v.post out).deeds = .queued out :: v.deeds := by simp [View.post, hc]
    intro d hd n hn
    rw [post_faces]
    rw [this] at hd
    rcases List.mem_cons.1 hd with rfl | hd
    · exact ho n hn
    · exact h d hd n hn
  · rwa [post_of_closed out hc]

theorem closeConn (h : v.Rooted) (m : Nat) : (v.closeConn m).Rooted := by
  refine closeConn_cases (P := Rooted) h fun f hf hopen => ?_
  rw [closeConn_of_open hf hopen]
  have hsay : (v.sayClosed m f).Rooted := by
    unfold sayClosed
    split
    · exact h
    · refine h.post fun n hn => ?_
      cases hn
      exact (List.getElem?_eq_some_iff.1 hf).1
  exact hsay.frame rfl (by simp)

end Rooted

theorem Step.rooted (hs : Step may v w) (h : v.Rooted) : w.Rooted := by
  have hlt {m k : Nat} {f : Face} (hf : v.faces[m]? = some f) (hk : some m = some k) :
      k < v.faces.length := by
    cases hk
    exact (List.getElem?_eq_some_iff.1 hf).1
  have hrouted {frame : Frame} {m : Nat} {f : Face} (hf : v.faces[m]? = some f) :
      ((v.note (.dispatched frame)).note (.routed m frame)).Rooted :=
    (h.pass rfl).note fun n hn => hlt hf hn
  cases hs with
  | ask | goOn | award | accept | register | retire => exact h.frame rfl (Nat.le_refl _)
  | look | waste => exact h.setFace _ _
  | refuse => exact (h.frame rfl (Nat.le_refl _)).setFace _ _
  | serve asked hf =>
    refine Rooted.setStage (Rooted.note (h.setFace _ _) fun n hn => ?_) _ _
    simpa [View.setFace] using hlt hf hn
  | report asked hf =>
    refine Rooted.post (h.setFace _ _) fun n hn => ?_
    simpa [View.setFace] using hlt hf hn
  | send asked hstage hf =>
    refine Rooted.setStage (Rooted.post (h.setFace _ _) fun n hn => ?_) _ _
    simpa [View.setFace] using hlt hf hn
  | leave n => exact h.closeConn n
  | start => exact Rooted.pass (h.frame rfl (Nat.le_refl _)) rfl
  | ping => exact h.post fun n hn => by cases hn
  | echo => exact Rooted.post (h.pass rfl) fun n hn => by cases hn
  | discard => exact h.pass rfl
  | request =>
    refine Rooted.setStage (Rooted.post ?_ fun n hn => ?_) _ _
    · exact Rooted.frame (h.addFace _) rfl (Nat.le_refl _)
    · cases hn
      simp [View.addFace]
  | stage => exact Rooted.pass (Rooted.pass (Rooted.frame (h.addFace _) rfl (Nat.le_refl _)) rfl) rfl
  | stageLate => exact Rooted.pass (Rooted.pass (h.addFace _) rfl) rfl
  | enter hseg hto hf =>
    refine Rooted.note (Rooted.setFace (hrouted hf) _ _) fun n hn => ?_
    simpa [View.setFace, View.note] using hlt hf hn
  | overflow hseg hto hf => exact Rooted.closeConn (hrouted hf) _
  | hollow hflag hp hto =>
    obtain ⟨f, hf, -⟩ := exists_of_addressee hto
    exact hrouted hf
  | answer hflag hto hf | grant hflag hto hf | farewell hflag hto hf =>
    exact Rooted.setFace (hrouted hf) _ _
  | turnAway running ht hf =>
    refine Rooted.post (Rooted.setFace ?_ _ _) fun n hn => ?_
    · exact h.frame rfl (Nat.le_refl _)
    · simpa [View.setFace] using hlt hf hn
  | publish hp hf =>
    refine Rooted.post ?_ fun n hn => ?_
    · exact h.frame rfl (Nat.le_refl _)
    · exact hlt hf hn
  | close => exact h.frame rfl (by simp [View.close, shutAll])

end View

end StreamMux
