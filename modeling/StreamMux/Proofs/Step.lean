import Mathlib.Logic.Relation
import StreamMux.Proofs.View

/-! The steps of a view, and that every move of a session comes down to them: each clause says what the
step asks for and all that it changes. What a step keeps is kept by every run. -/

namespace StreamMux

/-- The connection that a call reads or writes. -/
def Request.conn? : Request → Option Nat
  | .read conn _ | .write conn _ => some conn
  | _ => none

/-- The stage hands nothing over: the call waits for no answer, and got no connection and no data. -/
def CallStage.isPlain : CallStage → Bool
  | .answering _ _ | .over (.conn _) | .over (.taken _) => false
  | _ => true

namespace View

/-- The frame is a segment of a message, with its data and its mark. -/
def IsSegment (frame : Frame) (data : Bytes) (part : Bool) : Prop :=
  frame.flag = (if part then .newMsgPart else .newMsg) ∧ frame.payload = some data

/-- The call has not given a connection to the user. -/
def Loose (call : Nat) (v : View) : Prop :=
  ∀ request n, v.calls[call]? ≠ some (request, .over (.conn n))

/-- One step of a view. A refused connection may be given up where `may` allows it. -/
inductive Step (may : View → Nat → Prop) : View → View → Prop
  /-- The user starts a call. -/
  | ask {v : View} (request : Request) (held : ∀ n, request.conn? = some n → v.Owns n) :
      Step may v { v with calls := v.calls ++ [(request, .fresh)] }
  /-- A call goes on or ends. -/
  | goOn {v : View} (call : Nat) (stage : CallStage) (plain : stage.isPlain = true)
      (loose : v.Loose call) :
      Step may v (v.setStage call stage)
  /-- An open registers a connection and asks the peer for it. -/
  | request {v : View} {call : Nat} {id : Int32} (due : Moment)
      (asked : v.calls[call]? = some (.openConn, .fresh)) (running : v.closed = false)
      (pos : 0 < id) (free : v.registry.lookup id = none) :
      Step may v ((({ v.addFace (.make v.settings id (.awaited call)) with
        registry := { v.registry with entries := v.registry.entries ++ [(id, v.faces.length)] } }).post
          { frame := .control .newConn id, conn := some v.faces.length }).setStage call
            (.answering v.faces.length due))
  /-- An open sees that the peer has accepted. -/
  | award {v : View} {call n : Nat} {request : Request} {due : Moment} {f : Face}
      (asked : v.calls[call]? = some (request, .answering n due)) (hf : v.faces[n]? = some f)
      (given : f.reply = .given true) : Step may v (v.setStage call (.over (.conn n)))
  /-- An open sees that the peer has refused, and ends. -/
  | refuse {v : View} {call n : Nat} {request : Request} {due : Moment} {f : Face}
      (asked : v.calls[call]? = some (request, .answering n due)) (hf : v.faces[n]? = some f)
      (given : f.reply = .given false) (allowed : may v n) :
      Step may v ((({ v with registry := (v.registry.delete f.id).1 }).setFace n f.shut).setStage call
        (.over (.failed .connectionRefused)))
  /-- An accept takes a connection that is ready for it. -/
  | accept {v : View} {call n : Nat} {request : Request} {rest : List Nat}
      (asked : v.calls[call]? = some (request, .accepting)) (hp : v.published = n :: rest) :
      Step may v (({ v with published := rest }).setStage call (.over (.conn n)))
  /-- A read is given data, or the end. -/
  | serve {v : View} {call n : Nat} {want : Want} {f : Face} {receive : ReceiveWindow} {taken : Taken}
      (asked : v.calls[call]? = some (.read n want, .reading)) (hf : v.faces[n]? = some f)
      (hs : f.receive.serve want = (receive, some taken)) :
      Step may v (((v.setFace n { f with receive }).note (.handedOut n taken)).setStage call
        (.over (.taken taken)))
  /-- A read finds nothing, and waits. -/
  | look {v : View} {n : Nat} {want : Want} {f : Face} {receive : ReceiveWindow}
      (hf : v.faces[n]? = some f) (hs : f.receive.serve want = (receive, none)) :
      Step may v (v.setFace n { f with receive })
  /-- What was read is reported. -/
  | report {v : View} {call n : Nat} {want : Want} {stage : CallStage} {f : Face}
      {receive : ReceiveWindow} {credit : UInt32}
      (asked : v.calls[call]? = some (.read n want, stage)) (hf : v.faces[n]? = some f)
      (hclosed : f.closed = false) (hclosing : f.closing = false)
      (hc : f.receive.takeCredit v.settings.maxSegment = (receive, some credit)) :
      Step may v ((v.setFace n { f with receive }).post
        { frame := .sendOk f.id credit, conn := some n })
  /-- A write spends credit on a segment. -/
  | send {v : View} {call n written credit : Nat} {data : Bytes} {stage : CallStage} {f : Face}
      {send : SendWindow} (asked : v.calls[call]? = some (.write n data, stage))
      (hstage : stage = .sending written ∨ stage = .crediting written) (hf : v.faces[n]? = some f)
      (running : v.closed = false)
      (ha : f.send.acquire (min (data.length - written) v.settings.maxSegment) =
        (send, some (some credit))) :
      Step may v (((v.setFace n { f with send }).post
        { frame := .data f.id ((data.drop written).take credit) (written + credit < data.length),
          conn := some n, call := some call }).setStage call (.sending (written + credit)))
  /-- A write spends credit after the end of the session, and sends nothing. -/
  | waste {v : View} {n want credit : Nat} {f : Face} {send : SendWindow}
      (hf : v.faces[n]? = some f) (ended : v.closed = true)
      (ha : f.send.acquire want = (send, some (some credit))) : Step may v (v.setFace n { f with send })
  /-- The user closes a connection. -/
  | leave {v : View} (n : Nat) (held : v.Owns n) : Step may v (v.closeConn n)
  /-- The writer takes a frame from the queue. -/
  | start {v : View} {lanes : Lanes Outgoing} {out : Outgoing} (running : v.closed = false)
      (ht : v.outbox.take = (lanes, some out)) :
      Step may v (({ v with outbox := lanes }).note (.started out))
  /-- The session pings its peer. -/
  | ping {v : View} (payload : Bytes) : Step may v (v.post { frame := .ping payload })
  /-- A frame comes in that asks for a connection. -/
  | stage {v : View} {frame : Frame} (hflag : frame.flag = .newConn) (running : v.closed = false) :
      Step may v ((({ v.addFace (.make v.settings frame.id .unasked) with
        staged := { v.staged with normal := v.staged.normal ++ [v.faces.length] } }).note
          (.dispatched frame)).note (.staged v.faces.length))
  /-- A frame asks for a connection after the end of the session. -/
  | stageLate {v : View} {frame : Frame} (hflag : frame.flag = .newConn) (ended : v.closed = true) :
      Step may v (((v.addFace (Face.make v.settings frame.id .unasked).shut).note
        (.dispatched frame)).note (.staged v.faces.length))
  /-- A ping comes in and is sent back. -/
  | echo {v : View} {frame : Frame} {payload : Bytes} (hflag : frame.flag = .ping)
      (hp : frame.payload = some payload) :
      Step may v ((v.note (.dispatched frame)).post { frame := .pingReturn payload })
  /-- A frame comes in that concerns no connection, or none that is open. -/
  | discard {v : View} {frame : Frame} (hflag : frame.flag ≠ .newConn)
      (hto : frame.flag ≠ .ping → frame.flag ≠ .pingReturn → v.addressee frame.id = none) :
      Step may v (v.note (.dispatched frame))
  /-- A segment comes in and is taken. -/
  | enter {v : View} {frame : Frame} {data : Bytes} {part : Bool} {n : Nat} {f : Face}
      {receive : ReceiveWindow} (hseg : IsSegment frame data part)
      (hto : v.addressee frame.id = some n) (hf : v.faces[n]? = some f)
      (hw : f.receive.write f.id data part = .ok receive) :
      Step may v ((((v.note (.dispatched frame)).note (.routed n frame)).setFace n { f with receive }).note
        (.buffered n ⟨data, part⟩))
  /-- A segment comes in that the window refuses. -/
  | overflow {v : View} {frame : Frame} {data : Bytes} {part : Bool} {n : Nat} {f : Face}
      {cause : MuxError} (hseg : IsSegment frame data part)
      (hto : v.addressee frame.id = some n) (hf : v.faces[n]? = some f)
      (hw : f.receive.write f.id data part = .error cause) :
      Step may v (((v.note (.dispatched frame)).note (.routed n frame)).closeConn n)
  /-- A segment without data comes in. -/
  | hollow {v : View} {frame : Frame} {n : Nat} (hflag : frame.flag.isData = true)
      (hp : frame.payload = none) (hto : v.addressee frame.id = some n) :
      Step may v ((v.note (.dispatched frame)).note (.routed n frame))
  /-- The peer answers. -/
  | answer {v : View} {frame : Frame} {accepted : Bool} {n : Nat} {f : Face}
      (hflag : frame.flag = if accepted then .newConnOk else .newConnFail)
      (hto : v.addressee frame.id = some n) (hf : v.faces[n]? = some f) :
      Step may v (((v.note (.dispatched frame)).note (.routed n frame)).setFace n
        { f with reply := f.reply.answer accepted })
  /-- The peer gives credit. -/
  | grant {v : View} {frame : Frame} {n : Nat} {f : Face} (hflag : frame.flag = .msgSendOk)
      (hto : v.addressee frame.id = some n) (hf : v.faces[n]? = some f) :
      Step may v (((v.note (.dispatched frame)).note (.routed n frame)).setFace n
        { f with send := f.send.grant frame.window })
  /-- The peer closes a connection. -/
  | farewell {v : View} {frame : Frame} {n : Nat} {f : Face} (hflag : frame.flag = .connClose)
      (hto : v.addressee frame.id = some n) (hf : v.faces[n]? = some f) :
      Step may v (((v.note (.dispatched frame)).note (.routed n frame)).setFace n f.closeByPeer)
  /-- The acceptor registers a staged connection. -/
  | register {v : View} {lanes : Lanes Nat} {registry : Registry Nat} {n : Nat} {f : Face}
      (running : v.closed = false) (ht : v.staged.take = (lanes, some n)) (hf : v.faces[n]? = some f)
      (hr : v.registry.insertNew f.id n = some registry) (idle : v.acceptor = .idle) :
      Step may v { v with staged := lanes, registry, acceptor := .publishing n }
  /-- The acceptor refuses a staged connection. -/
  | turnAway {v : View} {lanes : Lanes Nat} {n : Nat} {f : Face}
      (running : v.closed = false) (ht : v.staged.take = (lanes, some n)) (hf : v.faces[n]? = some f)
      (hr : v.registry.insertNew f.id n = none) :
      Step may v ((({ v with staged := lanes }).setFace n f.shut).post
        { frame := .control .newConnFail f.id, conn := some n })
  /-- The acceptor makes a connection ready for an accept, and confirms it to the peer. -/
  | publish {v : View} {n : Nat} {f : Face} (hp : v.acceptor = .publishing n)
      (hf : v.faces[n]? = some f) :
      Step may v (({ v with
        published := v.published ++ [n]
        acceptor := if v.closed then .over else .idle }).post
          { frame := .control .newConnOk f.id, conn := some n })
  /-- The acceptor ends after the session. -/
  | retire {v : View} (ended : v.closed = true) : Step may v { v with acceptor := .over }
  /-- The session ends. -/
  | close {v : View} (running : v.closed = false) : Step may v v.close

abbrev Steps (may : View → Nat → Prop) : View → View → Prop := Relation.ReflTransGen (Step may)

/-! ### Coherence -/

namespace Coherent

variable {v w : View}

/-- A change that leaves the session, its registry and its queues alone. -/
theorem frame (h : v.Coherent) (hc : w.closed = v.closed) (hr : w.registry = v.registry)
    (ho : w.outbox = v.outbox) (hs : w.staged = v.staged) (ha : w.acceptor = v.acceptor)
    (hf : v.faces.length ≤ w.faces.length) : w.Coherent where
  registry := by rw [hr, hc, h.registry]
  outbox := by rw [ho, hc, h.outbox]
  staged := by rw [hs, hc, h.staged]
  no_entries := by rw [hr, hc]; exact h.no_entries
  no_frames := by rw [ho, hc]; exact h.no_frames
  no_staged := by rw [hs, hc]; exact h.no_staged
  staged_lt n hn := Nat.lt_of_lt_of_le (h.staged_lt n (hs ▸ hn)) hf
  publishing_lt n hn := Nat.lt_of_lt_of_le (h.publishing_lt n (ha ▸ hn)) hf

theorem note (h : v.Coherent) (e : Event) : (v.note e).Coherent :=
  h.frame rfl rfl rfl rfl rfl (Nat.le_refl _)

theorem setStage (h : v.Coherent) (call : Nat) (stage : CallStage) : (v.setStage call stage).Coherent :=
  h.frame rfl rfl rfl rfl rfl (Nat.le_refl _)

theorem setFace (h : v.Coherent) (n : Nat) (f : Face) : (v.setFace n f).Coherent :=
  h.frame rfl rfl rfl rfl rfl (by simp [View.setFace])

theorem addFace (h : v.Coherent) (f : Face) : (v.addFace f).Coherent :=
  h.frame rfl rfl rfl rfl rfl (by simp [View.addFace])

theorem push (h : v.Coherent) (hopen : v.closed = false) (lane : Lane) (out : Outgoing) :
    ∃ lanes, v.outbox.push lane out = some lanes ∧ lanes.stopped = false := by
  have hs : v.outbox.stopped = false := h.outbox.trans hopen
  cases lane <;> simp [Lanes.push, hs]

theorem post (h : v.Coherent) (out : Outgoing) : (v.post out).Coherent := by
  cases hc : v.closed
  · obtain ⟨lanes, hl, hls⟩ := h.push hc out.lane out
    have hv : v.post out = { v with outbox := lanes, deeds := .queued out :: v.deeds } := by
      simp [View.post, hc, hl]
    rw [hv]
    exact ⟨h.registry, hls.trans hc.symm, h.staged, h.no_entries, fun he => by simp [hc] at he,
      h.no_staged, h.staged_lt, h.publishing_lt⟩
  · rwa [post_of_closed out hc]

theorem sayClosed (h : v.Coherent) (n : Nat) (f : Face) : (v.sayClosed n f).Coherent := by
  unfold View.sayClosed
  split
  · exact h
  · exact h.post _

theorem delete (h : v.Coherent) (id : Int32) (faces : List Face) (hl : faces.length = v.faces.length) :
    Coherent { v with faces, registry := (v.registry.delete id).1 } where
  registry := h.registry
  outbox := h.outbox
  staged := h.staged
  no_entries he := by simp [Registry.delete, h.no_entries he]
  no_frames := h.no_frames
  no_staged := h.no_staged
  staged_lt n hn := hl ▸ h.staged_lt n hn
  publishing_lt n hn := hl ▸ h.publishing_lt n hn

theorem closeConn (h : v.Coherent) (n : Nat) : (v.closeConn n).Coherent := by
  refine closeConn_cases (P := Coherent) h fun f hf hopen => ?_
  rw [closeConn_of_open hf hopen]
  simpa using (h.sayClosed n f).delete f.id (v.faces.set n f.close) (by simp)

theorem close (h : v.Coherent) : v.close.Coherent where
  registry := rfl
  outbox := rfl
  staged := rfl
  no_entries _ := rfl
  no_frames _ := rfl
  no_staged _ := rfl
  staged_lt n hn := by simp [View.close, Lanes.toList] at hn
  publishing_lt n hn := by
    have := h.publishing_lt n hn
    simpa [View.close, View.shutAll] using this

/-- What is taken from the staged connections leaves the others. -/
theorem popStaged (h : v.Coherent) {lanes : Lanes Nat} {n : Nat}
    (hopen : v.closed = false) (ht : v.staged.take = (lanes, some n)) :
    Coherent { v with staged := lanes } where
  registry := h.registry
  outbox := h.outbox
  staged := by rw [Lanes.stopped_of_take ht]; exact h.staged
  no_entries := h.no_entries
  no_frames := h.no_frames
  no_staged he := by simp [hopen] at he
  staged_lt m hm := h.staged_lt m (by rw [Lanes.toList_of_take ht]; exact List.mem_cons_of_mem _ hm)
  publishing_lt := h.publishing_lt

end Coherent

/-- What enters a registry that is open leaves it open. -/
theorem closed_of_insertNew {r r' : Registry Nat} {id : Int32} {n : Nat}
    (h : r.insertNew id n = some r') : r.closed = false ∧ r'.closed = false := by
  unfold Registry.insertNew at h
  split at h
  · cases h
  · rename_i hfree
    cases h
    simp_all

variable {may : View → Nat → Prop}

theorem Step.coherent {v w : View} (hs : Step may v w) (h : v.Coherent) : w.Coherent := by
  cases hs with
  | ask => exact h.frame rfl rfl rfl rfl rfl (Nat.le_refl _)
  | goOn | award => exact h.setStage _ _
  | accept =>
    refine Coherent.setStage ?_ _ _
    exact h.frame rfl rfl rfl rfl rfl (Nat.le_refl _)
  | serve => exact ((h.setFace _ _).note _).setStage _ _
  | look | waste => exact h.setFace _ _
  | report => exact (h.setFace _ _).post _
  | send => exact ((h.setFace _ _).post _).setStage _ _
  | leave n => exact h.closeConn n
  | ping => exact h.post _
  | echo => exact (h.note _).post _
  | stageLate => exact ((h.addFace _).note _).note _
  | discard => exact h.note _
  | hollow => exact (h.note _).note _
  | enter => exact (((h.note _).note _).setFace _ _).note _
  | answer | grant | farewell => exact ((h.note _).note _).setFace _ _
  | overflow => exact ((h.note _).note _).closeConn _
  | close => exact h.close
  | request due asked running =>
    refine Coherent.setStage (Coherent.post ?_ _) _ _
    exact { h.addFace _ with
      registry := h.registry
      no_entries := fun he => by simp [addFace, running] at he }
  | refuse _ hf =>
    refine Coherent.setStage (Coherent.delete h _ _ ?_) _ _
    simp
  | start running ht =>
    refine Coherent.note ?_ _
    exact { h with
      outbox := (Lanes.stopped_of_take ht).trans h.outbox
      no_frames := fun he => by simp [running] at he }
  | stage hflag running =>
    refine Coherent.note (Coherent.note ?_ _) _
    refine { h.addFace _ with
      staged := h.staged
      no_staged := fun he => by simp [addFace, running] at he
      staged_lt := fun n hn => ?_ }
    simp only [Lanes.toList, addFace, List.mem_append, List.mem_singleton, List.length_append,
      List.length_singleton] at hn ⊢
    rcases hn with hn | hn | rfl
    · have := h.staged_lt n (by simp [Lanes.toList, hn]); omega
    · have := h.staged_lt n (by simp [Lanes.toList, hn]); omega
    · omega
  | register running ht hf hr =>
    obtain ⟨-, hopen⟩ := closed_of_insertNew hr
    exact { h.popStaged running ht with
      registry := hopen.trans running.symm
      no_entries := fun he => by simp [running] at he
      publishing_lt := fun m hm => by
        cases hm
        exact (List.getElem?_eq_some_iff.1 hf).1 }
  | turnAway running ht => exact ((h.popStaged running ht).setFace _ _).post _
  | publish hp =>
    refine Coherent.post ?_ _
    refine { h with publishing_lt := fun m hm => ?_ }
    dsimp only at hm
    split at hm <;> cases hm
  | retire => exact { h with publishing_lt := fun m hm => by cases hm }

theorem Steps.coherent {v w : View} (hs : Steps may v w) (h : v.Coherent) : w.Coherent := by
  induction hs with
  | refl => exact h
  | tail _ hs ih => exact hs.coherent ih

/-! ### The end of the session -/

section Ended

variable {v w : View} {may : View → Nat → Prop}

/-- An ended session stays ended. -/
theorem Step.closed_mono (hs : Step may v w) (h : v.closed = true) : w.closed = true := by
  cases hs <;>
    first | exact h | rfl | exact (post_closed ..).trans h | exact (closeConn_closed ..).trans h

theorem Steps.closed_mono (hs : Steps may v w) (h : v.closed = true) : w.closed = true := by
  induction hs with
  | refl => exact h
  | tail _ hstep ih => exact hstep.closed_mono ih

/-- A session that runs has not ended before. -/
theorem Step.running (hs : Step may v w) (h : w.closed = false) : v.closed = false :=
  Bool.eq_false_iff.2 fun hc => by
    rw [hs.closed_mono hc] at h
    cases h

end Ended

end View

end StreamMux
