import StreamMux.Proofs.History
import StreamMux.Session.Run

/-! What a session shows of its connections and its traffic. A view leaves out who sleeps or is ready,
the clocks and the estimates, so a turn that only wakes somebody leaves the view as it was; and what
the turns of all fibers and the moves of the user do to it comes down to a few steps. -/

namespace StreamMux

/-! ### Connections -/

/-- The answer that was awaited is lost. -/
def Reply.lose : Reply → Reply
  | .awaited _ => .lost
  | r => r

/-- Take the peer's answer, if it is awaited. -/
def Reply.answer (accepted : Bool) : Reply → Reply
  | .awaited _ => .given accepted
  | r => r

/-- A connection without those who wait on it. -/
structure Face where
  id : Int32
  receive : ReceiveWindow
  send : SendWindow
  closed : Bool
  closing : Bool
  reply : Reply

namespace Face

/-- A new connection. -/
def make (settings : Settings) (id : Int32) (reply : Reply) : Face where
  id
  receive := { capacity := settings.receiveWindow.toNat }
  send := { remaining := settings.receiveWindow }
  closed := false
  closing := false
  reply

/-- Both windows are stopped. -/
def stop (f : Face) : Face :=
  { f with receive := { f.receive with stopped := true }, send := { f.send with closed := true } }

/-- Closed on this side. -/
def close (f : Face) : Face := { f.stop with closed := true }

/-- Closed without a word to the peer. -/
def shut (f : Face) : Face := { f.close with reply := f.reply.lose }

/-- Closed by the peer. -/
def closeByPeer (f : Face) : Face := { f.stop with closing := true }

@[simp] theorem shut_shut (f : Face) : f.shut.shut = f.shut := by
  obtain ⟨id, receive, send, closed, closing, reply⟩ := f
  cases reply <;> rfl

end Face

namespace Conn

def face (c : Conn) : Face := ⟨c.id, c.inflow.state, c.outflow.state, c.closed, c.closing, c.reply⟩

@[simp] theorem face_make (settings : Settings) (id : Int32) (reply : Reply) :
    (make settings id reply).face = .make settings id reply := rfl

@[simp] theorem face_closeByPeer (c : Conn) : c.closeByPeer.1.face = c.face.closeByPeer := rfl

@[simp] theorem face_shutdown (c : Conn) : c.shutdown.1.face = c.face.shut := by
  obtain ⟨id, inflow, outflow, lock, closed, closing, reply⟩ := c
  cases reply <;> rfl

@[simp] theorem face_answer (accepted : Bool) (c : Conn) :
    (c.answer accepted).1.face = { c.face with reply := c.reply.answer accepted } := by
  obtain ⟨id, inflow, outflow, lock, closed, closing, reply⟩ := c
  cases reply <;> rfl

@[simp] theorem face_grant (credit : UInt32) (c : Conn) :
    (c.grant credit).1.face = { c.face with send := c.outflow.state.grant credit } := rfl

end Conn

/-! ### Sessions -/

/-- The lane that a frame is queued in. -/
def Outgoing.lane (out : Outgoing) : Lane := if out.frame.flag.isPriority then .priority else .normal

structure View where
  settings : Settings
  closed : Bool
  registry : Registry Nat
  faces : List Face
  outbox : Lanes Outgoing
  staged : Lanes Nat
  acceptor : AcceptorStage
  published : List Nat
  calls : List (Request × CallStage)
  /-- The traffic, the latest first. -/
  deeds : List Event

namespace View

def note (e : Event) (v : View) : View := { v with deeds := e :: v.deeds }

def setFace (n : Nat) (f : Face) (v : View) : View := { v with faces := v.faces.set n f }

def addFace (f : Face) (v : View) : View := { v with faces := v.faces ++ [f] }

def setStage (call : Nat) (stage : CallStage) (v : View) : View :=
  { v with calls := v.calls.modify call fun c => (c.1, stage) }

/-- Queue a frame, or drop it if the session is closed. -/
def post (out : Outgoing) (v : View) : View :=
  if v.closed then v
  else { v with outbox := (v.outbox.push out.lane out).getD v.outbox, deeds := .queued out :: v.deeds }

/-- Tell the peer that a connection is closed, unless it closed first. -/
def sayClosed (n : Nat) (f : Face) (v : View) : View :=
  if f.closing then v else v.post { frame := .control .connClose f.id, conn := n }

/-- Close a connection on this side. -/
def closeConn (n : Nat) (v : View) : View :=
  match v.faces[n]? with
  | none => v
  | some f =>
    if f.closed then v
    else
      { v.sayClosed n f with
        faces := v.faces.set n f.close
        registry := (v.registry.delete f.id).1 }

/-- Close connections without a word to the peer. -/
def shutAll (conns : List Nat) (v : View) : View :=
  { v with faces := v.faces.mapIdx fun n f => if n ∈ conns then f.shut else f }

/-- End the session. -/
def close (v : View) : View :=
  { v.shutAll (v.registry.entries.map (·.2) ++ v.staged.toList) with
    closed := true
    registry := { entries := [], closed := true }
    outbox := { stopped := true }
    staged := { stopped := true } }

/-- The open connection registered under an id. -/
def addressee (id : Int32) (v : View) : Option Nat :=
  match v.registry.get? id with
  | none => none
  | some n =>
    match v.faces[n]? with
    | none => none
    | some f => if f.closed then none else some n

/-- A call has given this connection to the user. -/
def Owns (n : Nat) (v : View) : Prop := ∃ c ∈ v.calls, c.2 = .over (.conn n)

theorem setFace_self {n : Nat} {f : Face} {v : View} (hf : v.faces[n]? = some f) :
    v.setFace n f = v := by
  obtain ⟨hlt, rfl⟩ := List.getElem?_eq_some_iff.1 hf
  simp [setFace]

theorem shutAll_getElem? (conns : List Nat) (v : View) (n : Nat) :
    (v.shutAll conns).faces[n]? = v.faces[n]?.map fun f => if n ∈ conns then f.shut else f := by
  simp [shutAll]

@[simp] theorem shutAll_nil (v : View) : v.shutAll [] = v := by
  have : (v.shutAll []).faces = v.faces := by
    apply List.ext_getElem?
    intro n
    simp [shutAll_getElem?]
  exact congrArg (fun faces => { v with faces }) this

theorem shutAll_cons {n : Nat} {f : Face} {v : View} (hf : v.faces[n]? = some f) (conns : List Nat) :
    v.shutAll (n :: conns) = (v.setFace n f.shut).shutAll conns := by
  have : (v.shutAll (n :: conns)).faces = ((v.setFace n f.shut).shutAll conns).faces := by
    apply List.ext_getElem?
    intro m
    simp only [shutAll_getElem?, setFace, List.getElem?_set]
    by_cases hm : n = m
    · subst hm
      obtain ⟨hlt, rfl⟩ := List.getElem?_eq_some_iff.1 hf
      by_cases hmem : n ∈ conns <;> simp [hlt, hmem]
    · have : m ≠ n := fun e => hm e.symm
      simp [hm, this]
  exact congrArg (fun faces => { v with faces }) this

theorem shutAll_cons_none {n : Nat} {v : View} (hf : v.faces[n]? = none) (conns : List Nat) :
    v.shutAll (n :: conns) = v.shutAll conns := by
  have : (v.shutAll (n :: conns)).faces = (v.shutAll conns).faces := by
    apply List.ext_getElem?
    intro m
    simp only [shutAll_getElem?]
    by_cases hm : m = n
    · subst hm; simp [hf]
    · simp [hm]
  exact congrArg (fun faces => { v with faces }) this

theorem shutAll_append (conns more : List Nat) (v : View) :
    v.shutAll (conns ++ more) = (v.shutAll conns).shutAll more := by
  have : (v.shutAll (conns ++ more)).faces = ((v.shutAll conns).shutAll more).faces := by
    apply List.ext_getElem?
    intro n
    simp only [shutAll_getElem?, Option.map_map, List.mem_append]
    congr 1
    funext f
    by_cases h₁ : n ∈ conns <;> by_cases h₂ : n ∈ more <;> simp [h₁, h₂]
  exact congrArg (fun faces => { v with faces }) this

/-! What posting and closing leave as it was. -/

section Fields

variable (out : Outgoing) (n : Nat) (v : View)

@[simp] theorem post_settings : (v.post out).settings = v.settings := by unfold post; split <;> rfl

@[simp] theorem post_closed : (v.post out).closed = v.closed := by unfold post; split <;> rfl

@[simp] theorem post_registry : (v.post out).registry = v.registry := by unfold post; split <;> rfl

@[simp] theorem post_faces : (v.post out).faces = v.faces := by unfold post; split <;> rfl

@[simp] theorem post_staged : (v.post out).staged = v.staged := by unfold post; split <;> rfl

@[simp] theorem post_acceptor : (v.post out).acceptor = v.acceptor := by unfold post; split <;> rfl

@[simp] theorem post_published : (v.post out).published = v.published := by unfold post; split <;> rfl

@[simp] theorem post_calls : (v.post out).calls = v.calls := by unfold post; split <;> rfl

theorem post_setFace (f : Face) : (v.setFace n f).post out = (v.post out).setFace n f := by
  unfold post
  by_cases h : v.closed <;> simp [setFace, h]

theorem post_setStage (call : Nat) (stage : CallStage) :
    (v.setStage call stage).post out = (v.post out).setStage call stage := by
  unfold post
  by_cases h : v.closed <;> simp [setStage, h]

theorem post_of_closed {v : View} (out : Outgoing) (h : v.closed = true) : v.post out = v := by
  unfold post; rw [if_pos h]

end Fields

section Fields

variable (n : Nat) (f : Face) (v : View)

@[simp] theorem sayClosed_settings : (v.sayClosed n f).settings = v.settings := by
  unfold sayClosed; split <;> simp

@[simp] theorem sayClosed_closed : (v.sayClosed n f).closed = v.closed := by
  unfold sayClosed; split <;> simp

@[simp] theorem sayClosed_registry : (v.sayClosed n f).registry = v.registry := by
  unfold sayClosed; split <;> simp

@[simp] theorem sayClosed_faces : (v.sayClosed n f).faces = v.faces := by
  unfold sayClosed; split <;> simp

@[simp] theorem sayClosed_staged : (v.sayClosed n f).staged = v.staged := by
  unfold sayClosed; split <;> simp

@[simp] theorem sayClosed_acceptor : (v.sayClosed n f).acceptor = v.acceptor := by
  unfold sayClosed; split <;> simp

@[simp] theorem sayClosed_published : (v.sayClosed n f).published = v.published := by
  unfold sayClosed; split <;> simp

@[simp] theorem sayClosed_calls : (v.sayClosed n f).calls = v.calls := by
  unfold sayClosed; split <;> simp

end Fields

theorem closeConn_of_open {n : Nat} {f : Face} {v : View} (hf : v.faces[n]? = some f)
    (hopen : f.closed = false) :
    v.closeConn n = { v.sayClosed n f with
      faces := v.faces.set n f.close
      registry := (v.registry.delete f.id).1 } := by
  simp only [closeConn, hf, hopen, Bool.false_eq_true, ↓reduceIte]

theorem closeConn_of_closed {n : Nat} {f : Face} {v : View} (hf : v.faces[n]? = some f)
    (hclosed : f.closed = true) : v.closeConn n = v := by
  simp only [closeConn, hf, hclosed, ↓reduceIte]

/-- Closing a connection is nothing, or one of an open connection. -/
theorem closeConn_cases {n : Nat} {v : View} {P : View → Prop} (hsame : P v)
    (hopen : ∀ f, v.faces[n]? = some f → f.closed = false → P (v.closeConn n)) :
    P (v.closeConn n) := by
  rcases hf : v.faces[n]? with _ | f
  · simpa only [closeConn, hf] using hsame
  · cases hc : f.closed
    · exact hopen f hf hc
    · rw [closeConn_of_closed hf hc]; exact hsame

section Fields

variable (n : Nat) (v : View)

@[simp] theorem closeConn_settings : (v.closeConn n).settings = v.settings := by
  unfold closeConn
  split
  · rfl
  · split <;> simp

@[simp] theorem closeConn_closed : (v.closeConn n).closed = v.closed := by
  unfold closeConn
  split
  · rfl
  · split <;> simp

@[simp] theorem closeConn_staged : (v.closeConn n).staged = v.staged := by
  unfold closeConn
  split
  · rfl
  · split <;> simp

@[simp] theorem closeConn_acceptor : (v.closeConn n).acceptor = v.acceptor := by
  unfold closeConn
  split
  · rfl
  · split <;> simp

@[simp] theorem closeConn_published : (v.closeConn n).published = v.published := by
  unfold closeConn
  split
  · rfl
  · split <;> simp

@[simp] theorem closeConn_calls : (v.closeConn n).calls = v.calls := by
  unfold closeConn
  split
  · rfl
  · split <;> simp

end Fields

/-- The session, its registry and its queues are open or closed together, and a closed session holds
nothing. What waits to be registered or accepted is a connection that there is. -/
structure Coherent (v : View) : Prop where
  registry : v.registry.closed = v.closed
  outbox : v.outbox.stopped = v.closed
  staged : v.staged.stopped = v.closed
  no_entries : v.closed = true → v.registry.entries = []
  no_frames : v.closed = true → v.outbox.toList = []
  no_staged : v.closed = true → v.staged.toList = []
  staged_lt : ∀ n ∈ v.staged.toList, n < v.faces.length
  publishing_lt : ∀ n, v.acceptor = .publishing n → n < v.faces.length

end View

namespace Session

def view (s : Session) : View where
  settings := s.settings
  closed := s.closed
  registry := s.registry
  faces := s.conns.map Conn.face
  outbox := s.outbox.state
  staged := s.staged.state
  acceptor := s.acceptor
  published := s.published
  calls := s.calls.map fun c => (c.request, c.stage)
  deeds := s.trace.filter Event.isTraffic

end Session

end StreamMux
