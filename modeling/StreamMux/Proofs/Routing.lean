import StreamMux.Proofs.Footprints
import StreamMux.Proofs.Ends
import StreamMux.Proofs.Agreement

/-! What a frame from the peer leaves alone. It changes the connection that it is for and the entry of that
one, and ends no session. One that finds no open connection changes nothing and is let go. A segment that
the window refuses closes its connection, and no other. -/

namespace StreamMux

/-- The payload that the reader keeps until there is room for it. -/
def ReaderStage.payload? : ReaderStage → Option Bytes
  | .handing payload => some payload
  | _ => none

namespace Session

variable {s t u : Session} {f : Frame} {n : Nat} {id : Int32}

/-- The payloads that a session holds: of the frames that it has queued, unread in the windows of its
connections, and of the returned pings. -/
def payloads (s : Session) : List Bytes :=
  s.outbox.state.toList.filterMap (·.frame.payload) ++
    s.conns.flatMap (fun c => c.inflow.state.segments.map (·.data)) ++ (s.pongs ++ s.reader.payload?.toList)

/-- The frame is a segment for the connection, whose window is stopped or has no room for it. -/
def Declines (f : Frame) (n : Nat) (s : Session) : Prop :=
  s.addressee f.id = some n ∧ ∃ c data part, s.conns[n]? = some c ∧ View.IsSegment f data part ∧
    (c.inflow.state.stopped = true ∨ c.inflow.state.capacity < c.inflow.state.buffered + data.length)

/-- The connection is closed, and its windows take and give nothing. -/
def Shut (n : Nat) (s : Session) : Prop :=
  ∃ c, s.conns[n]? = some c ∧ c.closed = true ∧ c.inflow.state.stopped = true ∧ c.outflow.state.closed = true

/-- From `s` to `t` neither the connections nor the registry nor the queues changed, and no payload came to
be held. -/
structure Untouched (s t : Session) : Prop where
  registry : t.registry = s.registry
  conns : t.conns = s.conns
  outbox : t.outbox = s.outbox
  staged : t.staged = s.staged
  released : t.payloads.Sublist s.payloads

/-- What a frame leaves alone on its way from `s` to `t`. -/
structure Contained (f : Frame) (s t : Session) : Prop where
  running : t.closed = s.closed
  /-- A connection with another id is what it was, and so is every other id. -/
  others : ∀ (m : Nat) (c : Conn), c.id ≠ f.id → (t.conns[m]? = some c ↔ s.conns[m]? = some c)
  entries : ∀ i, i ≠ f.id → t.registry.get? i = s.registry.get? i
  /-- Of the connections under its id only the one that it is for changes. -/
  bystanders : ∀ m < s.conns.length, (f.flag.isRouted = true → s.addressee f.id ≠ some m) →
    t.conns[m]? = s.conns[m]?
  unclaimed : f.flag.isRouted = true → s.addressee f.id = none → Untouched s t
  declined : ∀ n, s.Declines f n →
    t.Shut n ∧ t.registry.get? f.id = none ∧ t.payloads.Sublist s.payloads
  /-- Only a segment that is refused closes a connection. -/
  closes : ∀ m c d, s.conns[m]? = some c → t.conns[m]? = some d → c.closed = false → d.closed = true →
    s.Declines f m

/-! ### One connection -/

/-- From `s` to `t` only the connection `n` changed, which is one under `id`, and the entry there. -/
structure Confined (n : Nat) (id : Int32) (s t : Session) : Prop where
  running : t.closed = s.closed
  others : ∀ m, m ≠ n → t.conns[m]? = s.conns[m]?
  before : ∀ c, s.conns[n]? = some c → c.id = id
  after : ∀ c, t.conns[n]? = some c → c.id = id
  entries : ∀ i, i ≠ id → t.registry.get? i = s.registry.get? i

namespace Confined

theorem refl (h : ∀ c, s.conns[n]? = some c → c.id = id) : Confined n id s s :=
  ⟨rfl, fun _ _ => rfl, h, h, fun _ _ => rfl⟩

/-- A change that the connections, the registry and the end of the session do not show. -/
theorem of_eq (h : Confined n id s t) (hclosed : u.closed = t.closed) (hconns : u.conns = t.conns)
    (hregistry : u.registry = t.registry) : Confined n id s u where
  running := hclosed.trans h.running
  others m hm := by rw [hconns, h.others m hm]
  before := h.before
  after c hc := h.after c (hconns ▸ hc)
  entries i hi := by rw [hregistry, h.entries i hi]

theorem changeConn (h : Confined n id s t) {change : Conn → Conn × List Fiber}
    (hid : ∀ c, (change c).1.id = c.id) : Confined n id s (t.changeConn n change) where
  running := (closed_changeConn ..).trans h.running
  others m hm := by
    rw [changeConn_getElem?, if_neg (Ne.symm hm)]
    exact h.others m hm
  before := h.before
  after c hc := by
    rw [changeConn_getElem?, if_pos rfl] at hc
    obtain ⟨d, hd, rfl⟩ := Option.map_eq_some_iff.1 hc
    exact (hid d).trans (h.after d hd)
  entries i hi := by
    have : (t.changeConn n change).registry = t.registry := by
      unfold Session.changeConn
      split <;> rfl
    rw [this, h.entries i hi]

theorem postOrDrop (h : Confined n id s t) (out : Outgoing) : Confined n id s (t.postOrDrop out) := by
  unfold Session.postOrDrop
  cases hp : t.post out with
  | none => exact h
  | some u => exact h.of_eq (closed_post hp) (conns_post hp) (registry_post hp)

theorem delete (h : Confined n id s t) : Confined n id s { t with registry := (t.registry.delete id).1 } where
  running := h.running
  others := h.others
  before := h.before
  after := h.after
  entries i hi := by
    have : (t.registry.delete id).1.get? i = t.registry.get? i := by
      simp only [Registry.get?, Registry.lookup_delete, if_neg hi]
      rfl
    exact this.trans (h.entries i hi)

theorem closeConn (h : Confined n id s t) : Confined n id s (t.closeConn n) := by
  unfold Session.closeConn
  split
  · exact h
  · rename_i c hc
    split
    · exact h
    · have hstop : Confined n id s (t.changeConn n fun c => { c with closed := true }.stopWindows) :=
        h.changeConn fun _ => rfl
      rw [h.after c hc]
      dsimp only
      split
      · exact hstop.delete
      · exact (hstop.postOrDrop _).delete

theorem pushSegment (h : Confined n id s t) (data : Bytes) (part : Bool) :
    Confined n id s (t.pushSegment n data part) := by
  unfold Session.pushSegment
  split
  · exact h
  · split
    · exact h.closeConn
    · exact Confined.of_eq (h.changeConn fun _ => rfl) rfl rfl rfl

theorem applyFrame (h : Confined n id s t) (f : Frame) : Confined n id s (t.applyFrame n f) := by
  unfold Session.applyFrame
  split
  · exact h.pushSegment ..
  · exact h.pushSegment ..
  · exact h.changeConn fun c => congrArg Face.id (Conn.face_answer true c)
  · exact h.changeConn fun c => congrArg Face.id (Conn.face_answer false c)
  · exact h.changeConn fun _ => rfl
  · exact h.changeConn fun _ => rfl
  · exact h

theorem stage (h : Confined n id s t) (hn : n = t.conns.length) : Confined n id s (t.stage id) := by
  subst hn
  have hadd : Confined t.conns.length id s ((t.addConn id .unasked).1.note (.staged t.conns.length)) := by
    refine ⟨h.running, fun m hm => ?_, h.before, fun c hc => ?_, h.entries⟩
    · rw [← h.others m hm]
      show (t.conns ++ [_])[m]? = _
      rcases Nat.lt_or_gt_of_ne hm with hlt | hgt
      · rw [List.getElem?_append_left hlt]
      · rw [List.getElem?_eq_none (by simp; omega), List.getElem?_eq_none (by omega)]
    · have : (t.conns ++ [Conn.make t.settings id .unasked])[t.conns.length]? = some c := hc
      simp only [List.getElem?_concat_length, Option.some.injEq] at this
      exact this ▸ rfl
  cases hpush : t.staged.push .normal t.conns.length with
  | some pushed =>
    rw [stage_of_push hpush]
    exact hadd.of_eq rfl rfl rfl
  | none =>
    rw [stage_of_stopped hpush]
    exact hadd.changeConn fun c => congrArg Face.id (Conn.face_shutdown c)

end Confined

/-! ### Frames -/

/-- The reader has begun to act on a frame. -/
def hearing (f : Frame) (s : Session) : Session := ({ s with reader := .between } : Session).note (.dispatched f)

theorem dispatch_of_isRouted (hf : f.flag.isRouted = true) : s.dispatch f = (s.hearing f).route f := by
  unfold dispatch
  dsimp only
  split
  case h_6 => rfl
  all_goals simp_all [Flag.isRouted]

theorem dispatch_of_addressee (hf : f.flag.isRouted = true) (hto : s.addressee f.id = some n) :
    s.dispatch f = ((s.hearing f).note (.routed n f)).applyFrame n f := by
  have hto' : (s.hearing f).addressee f.id = some n := hto
  rw [dispatch_of_isRouted hf, route, hto']

theorem dispatch_of_unclaimed (hf : f.flag.isRouted = true) (hto : s.addressee f.id = none) :
    s.dispatch f = s.hearing f := by
  have hto' : (s.hearing f).addressee f.id = none := hto
  rw [dispatch_of_isRouted hf, route, hto']

/-- The addressee is the open connection that is registered under the id. -/
theorem EntriesOpen.exists_of_addressee (h : s.EntriesOpen) (hto : s.addressee id = some n) :
    ∃ c, s.conns[n]? = some c ∧ c.id = id ∧ c.closed = false ∧ s.registry.get? id = some n := by
  unfold addressee at hto
  split at hto
  · cases hto
  · rename_i m hm
    obtain ⟨c, hc, hid, hopen⟩ := h id m hm
    simp only [hc, hopen, Bool.false_eq_true, ↓reduceIte, Option.some.injEq] at hto
    exact hto ▸ ⟨c, hc, hid, hopen, hm⟩

/-- A frame changes the connection that it is for, or the one that it asks for. -/
theorem confined_dispatch (h : s.EntriesOpen) (f : Frame) :
    ∃ n, (f.flag.isRouted = true ∧ s.addressee f.id = some n ∨ n = s.conns.length) ∧
      Confined n f.id s (s.dispatch f) := by
  have hnew : Confined s.conns.length f.id s (s.hearing f) :=
    Confined.of_eq (.refl fun c hc => by simp at hc) rfl rfl rfl
  by_cases hf : f.flag.isRouted = true
  · cases hto : s.addressee f.id with
    | none =>
      rw [dispatch_of_unclaimed hf hto]
      exact ⟨_, .inr rfl, hnew⟩
    | some n =>
      obtain ⟨c, hc, hid, -⟩ := h.exists_of_addressee hto
      have hold : Confined n f.id s ((s.hearing f).note (.routed n f)) :=
        Confined.of_eq (.refl fun d hd => by cases hc.symm.trans hd; exact hid) rfl rfl rfl
      rw [dispatch_of_addressee hf hto]
      exact ⟨n, .inl ⟨hf, rfl⟩, hold.applyFrame f⟩
  · refine ⟨_, .inr rfl, ?_⟩
    unfold dispatch
    dsimp only
    split
    · exact hnew.stage rfl
    · exact hnew.postOrDrop _
    · exact hnew.of_eq rfl rfl rfl
    · exact hnew
    · exact hnew
    · refine absurd ?_ hf
      cases hflag : f.flag <;> cases hp : f.payload <;> simp_all [Flag.isRouted]

/-! ### Segments that are refused -/

theorem error_of_full {inflow : Inflow Fiber} {data : Bytes} (id : Int32) (part : Bool)
    (h : inflow.state.stopped = true ∨ inflow.state.capacity < inflow.state.buffered + data.length) :
    ∃ cause, inflow.write id data part = .error cause := by
  unfold Inflow.write ReceiveWindow.write
  by_cases hstopped : inflow.state.stopped = true
  · exact ⟨_, by rw [if_pos hstopped]; rfl⟩
  · exact ⟨_, by rw [if_neg hstopped, if_pos (h.resolve_left hstopped)]; rfl⟩

theorem full_of_error {inflow : Inflow Fiber} {data : Bytes} {part : Bool} {cause : MuxError}
    (h : inflow.write id data part = .error cause) :
    inflow.state.stopped = true ∨ inflow.state.capacity < inflow.state.buffered + data.length := by
  by_contra hfits
  rw [not_or] at hfits
  simp [Inflow.write, ReceiveWindow.write, hfits, Except.map] at h

theorem isRouted_of_isSegment {data : Bytes} {part : Bool} (h : View.IsSegment f data part) :
    f.flag.isRouted = true := by
  rw [h.1]
  cases part <;> rfl

theorem applyFrame_of_isSegment {data : Bytes} {part : Bool} (h : View.IsSegment f data part) (n : Nat)
    (s : Session) : s.applyFrame n f = s.pushSegment n data part := by
  obtain ⟨hflag, hpayload⟩ := h
  unfold applyFrame
  cases part <;> simp [hflag, hpayload]

theorem dispatch_of_declines (h : s.Declines f n) :
    s.dispatch f = ((s.hearing f).note (.routed n f)).closeConn n := by
  obtain ⟨hto, c, data, part, hc, hseg, hfull⟩ := h
  have hc' : ((s.hearing f).note (.routed n f)).conns[n]? = some c := hc
  obtain ⟨cause, hcause⟩ := error_of_full c.id part hfull
  rw [dispatch_of_addressee (isRouted_of_isSegment hseg) hto, applyFrame_of_isSegment hseg]
  simp only [pushSegment, hc', hcause]

/-- A frame that is no such segment leaves the connection that it is for as open as it was. -/
theorem closed_applyFrame {c d : Conn} (hc : s.conns[n]? = some c)
    (hfits : ∀ data part, View.IsSegment f data part →
      ¬ (c.inflow.state.stopped = true ∨ c.inflow.state.capacity < c.inflow.state.buffered + data.length))
    (hd : (s.applyFrame n f).conns[n]? = some d) : d.closed = c.closed := by
  have hchange {change : Conn → Conn × List Fiber} (hclosed : ∀ c, (change c).1.closed = c.closed)
      (hd : (s.changeConn n change).conns[n]? = some d) : d.closed = c.closed := by
    rw [changeConn_getElem?, if_pos rfl, hc, Option.map_some, Option.some.injEq] at hd
    exact hd ▸ hclosed c
  have hpush {data : Bytes} {part : Bool} (hseg : View.IsSegment f data part)
      (hd : (s.pushSegment n data part).conns[n]? = some d) : d.closed = c.closed := by
    simp only [pushSegment, hc] at hd
    split at hd
    · rename_i hcause
      exact absurd (full_of_error hcause) (hfits data part hseg)
    · exact hchange (fun _ => rfl) hd
  unfold applyFrame at hd
  split at hd
  · exact hpush ⟨‹_›, ‹_›⟩ hd
  · exact hpush ⟨‹_›, ‹_›⟩ hd
  · exact hchange (fun c => congrArg Face.closed (Conn.face_answer true c)) hd
  · exact hchange (fun c => congrArg Face.closed (Conn.face_answer false c)) hd
  · exact hchange (fun _ => rfl) hd
  · exact hchange (fun _ => rfl) hd
  · cases hc.symm.trans hd
    rfl

/-! ### Payloads -/

theorem payloads_changeConn {change : Conn → Conn × List Fiber}
    (hsegments : ∀ c, (change c).1.inflow.state.segments = c.inflow.state.segments) (n : Nat) (s : Session) :
    (s.changeConn n change).payloads = s.payloads := by
  unfold changeConn
  split
  · rfl
  · rename_i c hc
    obtain ⟨hlt, rfl⟩ := List.getElem?_eq_some_iff.1 hc
    have hsame : (s.conns.set n (change s.conns[n]).1).map (fun c => c.inflow.state.segments.map (·.data)) =
        s.conns.map fun c => c.inflow.state.segments.map (·.data) := by
      apply List.ext_getElem?
      intro m
      rw [List.getElem?_map, List.getElem?_set]
      split
      · rename_i hm
        subst hm
        simp [hlt, hsegments]
      · rw [List.getElem?_map]
    simp only [payloads, wake, List.flatMap_def, hsame]

/-- A frame without a payload. -/
theorem payloads_postOrDrop {out : Outgoing} (hbare : out.frame.payload = none) (s : Session) :
    (s.postOrDrop out).payloads = s.payloads := by
  unfold postOrDrop
  cases hp : s.post out with
  | none => rfl
  | some t =>
    unfold post at hp
    split at hp
    · cases hp
    · obtain ⟨⟨outbox, woken⟩, hpush, rfl⟩ := Option.map_eq_some_iff.1 hp
      obtain ⟨lanes, hlanes, hq⟩ := Option.map_eq_some_iff.1 hpush
      have hstate : outbox.state = lanes := congrArg (fun q => Monitor.state (Prod.fst q)) hq.symm
      have hsame : lanes.toList.filterMap (·.frame.payload) =
          s.outbox.state.toList.filterMap (·.frame.payload) := by
        unfold Lanes.push at hlanes
        split at hlanes
        · cases hlanes
        · split at hlanes <;> cases hlanes <;> simp [Lanes.toList, hbare]
      simp only [payloads, wake, note, Option.getD_some, hstate, hsame]

theorem payloads_closeConn (n : Nat) (s : Session) : (s.closeConn n).payloads = s.payloads := by
  have hstop : (s.changeConn n fun c => { c with closed := true }.stopWindows).payloads = s.payloads :=
    payloads_changeConn (fun _ => rfl) n s
  unfold closeConn
  split
  · rfl
  · split
    · rfl
    · dsimp only
      split
      · exact hstop
      · exact (payloads_postOrDrop rfl _).trans hstop

/-- A connection that is closed here takes and gives nothing any more, and its id is free. -/
theorem shut_closeConn {c : Conn} (hc : s.conns[n]? = some c) (hopen : c.closed = false) :
    (s.closeConn n).Shut n ∧ (s.closeConn n).registry.get? c.id = none := by
  have hfree (registry : Registry Nat) : (registry.delete c.id).1.get? c.id = none := by
    simp [Registry.get?, Registry.lookup_delete]
  have hstop : (s.changeConn n fun c => { c with closed := true }.stopWindows).Shut n :=
    ⟨_, by rw [changeConn_getElem?, if_pos rfl, hc, Option.map_some], rfl, rfl, rfl⟩
  simp only [closeConn, hc, hopen, Bool.false_eq_true, ↓reduceIte]
  split
  · exact ⟨hstop, hfree _⟩
  · obtain ⟨d, hd, hshut⟩ := hstop
    refine ⟨⟨d, ?_, hshut⟩, hfree _⟩
    unfold postOrDrop
    cases hp : post _ _ with
    | none => exact hd
    | some t => exact (congrArg (·[n]?) (conns_post hp)).trans hd

/-! ### What is contained -/

theorem untouched_hearing (f : Frame) (s : Session) : Untouched s (s.hearing f) where
  registry := rfl
  conns := rfl
  outbox := rfl
  staged := rfl
  released := by
    unfold payloads
    refine List.Sublist.append (List.Sublist.refl _) (List.Sublist.append (List.Sublist.refl _) ?_)
    exact List.nil_sublist _

theorem contained_dispatch (h : s.EntriesOpen) (f : Frame) : Contained f s (s.dispatch f) := by
  obtain ⟨n, hn, hconfined⟩ := confined_dispatch h f
  have hbystanders (m : Nat) (hm : m < s.conns.length) (hto : f.flag.isRouted = true → s.addressee f.id ≠ some m) :
      (s.dispatch f).conns[m]? = s.conns[m]? := by
    refine hconfined.others m fun he => ?_
    rcases hn with ⟨hf, hn⟩ | hn
    · exact hto hf (he ▸ hn)
    · omega
  refine ⟨hconfined.running, fun m c hc => ?_, hconfined.entries, hbystanders, fun hf hto => ?_,
    fun m hm => ?_, fun m c d hc hd hopen hclosed => ?_⟩
  · by_cases hm : m = n
    · subst hm
      exact ⟨fun h => absurd (hconfined.after c h) hc, fun h => absurd (hconfined.before c h) hc⟩
    · rw [hconfined.others m hm]
  · rw [dispatch_of_unclaimed hf hto]
    exact untouched_hearing f s
  · obtain ⟨c, hc, hid, hopen, -⟩ := h.exists_of_addressee hm.1
    obtain ⟨hshut, hfree⟩ := shut_closeConn (s := (s.hearing f).note (.routed m f)) hc hopen
    rw [dispatch_of_declines hm, ← hid]
    refine ⟨hshut, hfree, ?_⟩
    rw [payloads_closeConn]
    exact (untouched_hearing f s).released
  · by_contra hno
    have hlt := (List.getElem?_eq_some_iff.1 hc).1
    by_cases hto : f.flag.isRouted = true ∧ s.addressee f.id = some m
    · rw [dispatch_of_addressee hto.1 hto.2] at hd
      have := closed_applyFrame (s := (s.hearing f).note (.routed m f)) hc
        (fun data part hseg hfull => hno ⟨hto.2, c, data, part, hc, hseg, hfull⟩) hd
      rw [hclosed, hopen] at this
      cases this
    · rw [hbystanders m hlt fun hf hm => hto ⟨hf, hm⟩, hc] at hd
      cases hd
      rw [hopen] at hclosed
      cases hclosed

/-! ### Runs -/

/-- A turn of the reader acts on the frame that it has read, or on none. -/
theorem readerTurn_dispatches (first : Bool) (s : Session) :
    (s.readerTurn first).1.dispatched = s.dispatched ∨ ∃ f rest, (s.readerTurn first).1 =
      ({ s with inlet := { s.inlet with bytes := rest } } : Session).receive f := by
  rcases readerTurn_receives first s with keeps | ⟨-, f, rest, -, -, hturn⟩
  · obtain ⟨es, hes, htrace⟩ := keeps.trace
    refine .inl ?_
    rw [dispatched, htrace, history_append fun e he => by rw [hes e he]; rfl]
    rfl
  · exact .inr ⟨f, rest, hturn⟩

theorem dispatched?_of_does {fiber : Fiber} {e : Event} (h : fiber.Does e) (hr : fiber ≠ .reader) :
    e.dispatched? = none := by
  unfold Fiber.Does at h
  cases e with
  | dispatched => cases fiber <;> simp_all [Fiber.records]
  | _ => rfl

theorem contained_move {settings : Settings} (hsound : s.view.Sound settings) (hp : s.Placed) {m : Move}
    (hm : s.move? m = some t) :
    t.dispatched = s.dispatched ∨ ∃ f, t.dispatched = s.dispatched ++ [f] ∧ Contained f s t := by
  have hsilent {es : List Event} (hes : ∀ e ∈ es, e.dispatched? = none) (htrace : t.trace = es ++ s.trace) :
      t.dispatched = s.dispatched := by
    rw [dispatched, htrace, history_append hes]
    rfl
  rcases move_cases hm with ⟨fiber, first, ready, ready', rfl, rfl⟩ | ⟨-, more, -, keeps⟩
  · let s₀ : Session := { s with ready }
    by_cases hf : fiber = .reader
    · subst hf
      rcases readerTurn_dispatches first s₀ with hsame | ⟨f, rest, hturn⟩
      · exact .inl hsame
      refine .inr ⟨f, ?_, ?_⟩
      · obtain ⟨reader, -, hends⟩ := ends_dispatch f { s₀ with
          inlet := { s₀.inlet with bytes := rest }, throughput := s₀.throughput.add f.bytes.length, idleTicks := 0 }
        show (s₀.readerTurn first).1.dispatched = _
        rw [hturn]
        exact congrArg Ends.dispatched hends
      · have h := contained_dispatch (s := { s₀ with
          inlet := { s₀.inlet with bytes := rest }, throughput := s₀.throughput.add f.bytes.length, idleTicks := 0 })
          (entriesOpen_of_filed hsound.coherent hsound.filed) f
        have hturn' : (s₀.turn first .reader).1 = _ := hturn
        rw [hturn']
        exact ⟨h.running, h.others, h.entries, h.bystanders,
          fun hf hto => ⟨(h.unclaimed hf hto).registry, (h.unclaimed hf hto).conns, (h.unclaimed hf hto).outbox,
            (h.unclaimed hf hto).staged, (h.unclaimed hf hto).released⟩, h.declined, h.closes⟩
    · obtain ⟨es, hes, htrace⟩ := (footprint_turn (s := s₀) hsound.coherent hp fiber first).trace
      exact .inl (hsilent (fun e he => dispatched?_of_does (hes e he) hf) htrace)
  · obtain ⟨es, hes, htrace⟩ := keeps.trace
    refine .inl (hsilent (fun e he => ?_) htrace)
    cases e <;> first | rfl | cases hes _ he

section Runs

variable {settings : Settings} {kind : LinkKind} {address : Option String} {capacity : Option Nat}
  {wall : Stamp}

/-- In every state that a session can reach, acting on a frame leaves every connection with another id as it
was and ends no session. A frame that is for no open connection leaves everything as it was, and its payload
is let go; a segment that is refused closes its connection alone. A move acts on no frame, or on one. -/
theorem frame_changes_one_connection (h : Reachable (start settings kind address capacity wall) s) :
    (∀ f, Contained f s (s.dispatch f)) ∧
    ∀ m t, s.move? m = some t →
      t.dispatched = s.dispatched ∨ ∃ f, t.dispatched = s.dispatched ++ [f] ∧ Contained f s t :=
  ⟨contained_dispatch (entriesOpen_of_filed h.sound.coherent h.sound.filed),
    fun _ _ hm => contained_move h.sound h.placed hm⟩

end Runs

/-- The peer asks for two connections and sends a byte on each, then another one on the first. -/
def twoStreams : List Move :=
  [.run .reader true, .deliver [6, 1, 0, 0, 0, 6, 2, 0, 0, 0, 4, 1, 0, 0, 0, 1, 0, 97, 3, 2, 0, 0, 0, 1, 0, 98]] ++
  List.replicate 4 (.run .reader true) ++ List.replicate 4 (.run .acceptor true) ++
  List.replicate 4 (.run .reader true) ++
  [.run .reader true, .deliver [3, 1, 0, 0, 0, 1, 0, 99]]

/-- The windows hold one byte, so the first connection is closed, and the second goes on. -/
theorem overflow_spares_other_stream :
    ∃ s t, Reachable (start (.build [.receiveWindow 1]) .tcp none none 0) s ∧
      s.Declines (.data 1 [99] false) 0 ∧ s.move? (.run .reader true) = some t ∧
      t.dispatched = s.dispatched ++ [.data 1 [99] false] ∧ t.closed = false ∧ t.Shut 0 ∧
      t.registry.get? 1 = none ∧ t.registry.get? 2 = some 1 ∧ t.conns[1]? = s.conns[1]? := by
  have hplay : ((start (.build [.receiveWindow 1]) .tcp none none 0).playCalm twoStreams).any (fun s =>
      s.closed = false ∧ s.addressee 1 = some 0 ∧ s.registry.get? 2 = some 1 ∧ s.conns.length = 2 ∧
      (s.conns[0]?).any (fun c => c.inflow.state.capacity = 1 ∧ c.inflow.state.buffered = 1) = true ∧
      (s.move? (.run .reader true)).any (fun t =>
        t.dispatched = s.dispatched ++ [.data 1 [99] false]) = true) = true := by
    decide +kernel
  obtain ⟨s, hs, hend⟩ := (Option.any_eq_true _ _).1 hplay
  obtain ⟨hopen, hto, hsecond, hlength, hfull, hnext⟩ := of_decide_eq_true hend
  obtain ⟨c, hc, hfull⟩ := (Option.any_eq_true _ _).1 hfull
  obtain ⟨hcapacity, hbuffered⟩ := of_decide_eq_true hfull
  obtain ⟨t, ht, hdispatched⟩ := (Option.any_eq_true _ _).1 hnext
  have hdispatched := of_decide_eq_true hdispatched
  have hreach := (undisturbed_of_playCalm .refl hs).reachable
  have hdeclines : s.Declines (.data 1 [99] false) 0 :=
    ⟨hto, c, [99], false, hc, ⟨rfl, rfl⟩, .inr (by rw [hcapacity, hbuffered]; decide)⟩
  rcases (frame_changes_one_connection hreach).2 _ t ht with hsilent | ⟨f, hf, hcontained⟩
  · rw [hdispatched] at hsilent
    exact absurd hsilent (by simp)
  · obtain rfl : f = .data 1 [99] false := by
      rw [hdispatched] at hf
      simpa using hf.symm
    obtain ⟨hshut, hfree, -⟩ := hcontained.declined 0 hdeclines
    refine ⟨s, t, hreach, hdeclines, ht, hdispatched, hcontained.running.trans hopen, hshut, hfree, ?_, ?_⟩
    · rw [hcontained.entries 2 (by decide), hsecond]
    · refine hcontained.bystanders 1 (by omega) fun _ => ?_
      rw [show s.addressee (Frame.data 1 [99] false).id = some 0 from hto]
      decide

end Session

end StreamMux
