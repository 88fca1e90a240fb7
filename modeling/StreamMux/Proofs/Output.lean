import StreamMux.Proofs.Footprints
import StreamMux.Proofs.Channel
import StreamMux.Proofs.Pending

/-! What the link has taken over of a session. It is the bytes of the frames that the writer took from its
queue, one whole frame after the other, and of the last of them perhaps a part; and each lane of the queue
gives its frames to the writer in the order in which they came in. -/

namespace StreamMux

def Event.wrote? : Event → Option Bytes
  | .wrote bytes => some bytes
  | _ => none

/-- All these frames have an encoding. -/
def Encodable (maxSegment : Nat) (outs : List Outgoing) : Prop :=
  ∀ out ∈ outs, out.frame.encode maxSegment = .ok out.frame.wire

/-- What the link has taken over of the frames that the writer took from its queue, by the place of the
writer: whole frames, and a part of the last one if the writer is in the middle of that or was stopped
there by the end of the session. -/
inductive Output (maxSegment : Nat) (closed : Bool) : WriterStage → List Outgoing → Bytes → Prop
  | between {outs : List Outgoing} (whole : Encodable maxSegment outs) :
      Output maxSegment closed .idle outs (wires outs)
  | within {outs : List Outgoing} {out : Outgoing} {part rest : Bytes} (whole : Encodable maxSegment outs)
      (fits : out.frame.encode maxSegment = .ok (part ++ rest)) (unwritten : rest ≠ []) :
      Output maxSegment closed (.writing rest) (outs ++ [out]) (wires outs ++ part)
  | done {outs : List Outgoing} (ended : closed = true) (whole : Encodable maxSegment outs) :
      Output maxSegment closed .over outs (wires outs)
  | cut {outs : List Outgoing} {out : Outgoing} {part rest : Bytes} (ended : closed = true)
      (whole : Encodable maxSegment outs) (fits : out.frame.encode maxSegment = .ok (part ++ rest))
      (unwritten : rest ≠ []) : Output maxSegment closed .over (outs ++ [out]) (wires outs ++ part)
  /-- The last frame has no encoding, which has ended the session. -/
  | refused {outs : List Outgoing} {out : Outgoing} {cause : FrameError} (ended : closed = true)
      (whole : Encodable maxSegment outs) (fails : out.frame.encode maxSegment = .error cause) :
      Output maxSegment closed .over (outs ++ [out]) (wires outs)

namespace Output

variable {maxSegment : Nat} {closed closed' : Bool} {writer : WriterStage} {outs : List Outgoing}
  {text : Bytes}

theorem mono (h : Output maxSegment closed writer outs text) (hc : closed' = false → closed = false) :
    Output maxSegment closed' writer outs text := by
  have hended (he : closed = true) : closed' = true := by
    cases hc' : closed'
    · rw [hc hc'] at he
      cases he
    · rfl
  cases h with
  | between whole => exact .between whole
  | within whole fits unwritten => exact .within whole fits unwritten
  | done ended whole => exact .done (hended ended) whole
  | cut ended whole fits unwritten => exact .cut (hended ended) whole fits unwritten
  | refused ended whole fails => exact .refused (hended ended) whole fails

/-- Wherever the writer stops, it stops for good. -/
theorem stop (h : Output maxSegment closed writer outs text) (ended : closed' = true)
    (hc : closed' = false → closed = false) : Output maxSegment closed' .over outs text := by
  have h := h.mono hc
  cases h with
  | between whole => exact .done ended whole
  | within whole fits unwritten => exact .cut ended whole fits unwritten
  | done ended whole => exact .done ended whole
  | cut ended whole fits unwritten => exact .cut ended whole fits unwritten
  | refused ended whole fails => exact .refused ended whole fails

/-- The next frame begins behind the whole ones. -/
theorem begin (h : Output maxSegment closed .idle outs text) {out : Outgoing} {bytes : Bytes}
    (fits : out.frame.encode maxSegment = .ok bytes) :
    Output maxSegment closed (.writing bytes) (outs ++ [out]) text := by
  cases h with
  | between whole =>
    have hwire := (Decoder.run_of_encode fits []).1
    have hsome : bytes ≠ [] := by rw [hwire]; simp [Frame.wire]
    have hnone : Output maxSegment closed (.writing bytes) (outs ++ [out]) (wires outs ++ []) :=
      .within whole fits hsome
    rwa [List.append_nil] at hnone

/-- A frame that has no encoding is the last. -/
theorem refuse (h : Output maxSegment closed .idle outs text) {out : Outgoing} {cause : FrameError}
    (fails : out.frame.encode maxSegment = .error cause) (ended : closed' = true) :
    Output maxSegment closed' .over (outs ++ [out]) text := by
  cases h with
  | between whole => exact .refused ended whole fails

/-- The link takes a part of what is left of a frame, or all of it. -/
theorem write {chunk left : Bytes} (h : Output maxSegment closed (.writing (chunk ++ left)) outs text) :
    Output maxSegment closed (if left = [] then .idle else .writing left) outs (text ++ chunk) := by
  generalize hw : WriterStage.writing (chunk ++ left) = writer at h
  cases h with
  | @within outs out part rest whole fits unwritten =>
    obtain rfl : chunk ++ left = rest := WriterStage.writing.inj hw
    rw [List.append_assoc]
    split
    · rename_i hleft
      have hwire := (Decoder.run_of_encode fits []).1
      rw [hleft, List.append_nil] at fits hwire
      have hwires : wires outs ++ (part ++ chunk) = wires (outs ++ [out]) := by
        rw [wires_append, hwire]
        simp [wires]
      rw [hwires]
      refine .between fun o ho => ?_
      rcases List.mem_append.1 ho with ho | ho
      · exact whole o ho
      · rw [List.mem_singleton.1 ho, fits, hwire]
    · rename_i hleft
      refine .within whole ?_ hleft
      rw [fits, List.append_assoc]
  | between | done | cut | refused => cases hw

end Output

namespace Session

variable {s t : Session} {settings : Settings} {kind : LinkKind} {address : Option String}
  {capacity : Option Nat} {wall : Stamp} {p : Event → Prop}

/-- The bytes that the link has taken over. -/
def output (s : Session) : Bytes := (history Event.wrote? s.trace).flatten

/-- What the link has taken over are whole frames, and perhaps a part of the last. -/
def WritesWhole (s : Session) : Prop :=
  Output s.settings.maxSegment s.closed s.writer s.started s.output

/-- The event is neither the start of a frame nor bytes that the link takes. -/
def Unwritten (e : Event) : Prop := e.started? = none ∧ e.wrote? = none

theorem output_eq {es : List Event} (hes : ∀ e ∈ es, Unwritten e) (htrace : t.trace = es ++ s.trace) :
    t.started = s.started ∧ t.output = s.output := by
  rw [started, output, htrace, history_append fun e he => (hes e he).1,
    history_append fun e he => (hes e he).2]
  exact ⟨rfl, rfl⟩

theorem unwritten_of_does {fiber : Fiber} {e : Event} (h : fiber.Does e) (hw : fiber ≠ .writer) :
    Unwritten e := by
  unfold Fiber.Does at h
  cases e with
  | started | wrote => cases fiber <;> simp_all [Fiber.records]
  | _ => exact ⟨rfl, rfl⟩

theorem unwritten_of_outside {e : Event} (h : e.isOutside = true) : Unwritten e := by
  cases e with
  | started | wrote => cases h
  | _ => exact ⟨rfl, rfl⟩

theorem unwritten_of_closed {e : Event} (h : e = .closed) : Unwritten e := h ▸ ⟨rfl, rfl⟩

/-! ### The writer -/

theorem Keeps.writesWhole (keeps : Keeps p s t) (hp : ∀ e, p e → Unwritten e)
    (h : Output s.settings.maxSegment t.closed s.writer s.started s.output) : t.WritesWhole := by
  obtain ⟨es, hes, htrace⟩ := keeps.trace
  obtain ⟨hstarted, houtput⟩ := output_eq (fun e he => hp e (hes e he)) htrace
  unfold WritesWhole
  rw [hstarted, houtput, show t.settings = s.settings from congrArg Works.settings keeps.works,
    show t.writer = s.writer from congrArg Works.writer keeps.works]
  exact h

theorem writesWhole_writerTurn (h : s.WritesWhole) (hco : s.view.Coherent) (first : Bool) :
    (s.writerTurn first).1.WritesWhole := by
  have hstarted (writer : WriterStage) (out : Outgoing) :
      (({ s with writer } : Session).note (.started out)).started = s.started ++ [out] ∧
      (({ s with writer } : Session).note (.started out)).output = s.output := by
    simp [started, output, note, Event.started?, Event.wrote?]
  unfold WritesWhole at h
  cases writerTurn_cases hco first with
  | rest keeps =>
    exact keeps.writesWhole (fun _ => False.elim) (h.mono fun ho => (keeps.running ho).1)
  | stop ended keeps =>
    exact keeps.writesWhole (fun _ => unwritten_of_closed) (h.stop ended fun ho => (keeps.running ho).1)
  | begin out lanes bytes idle take fits keeps =>
    refine keeps.writesWhole (fun _ => False.elim) ?_
    rw [(hstarted _ out).1, (hstarted _ out).2]
    rw [idle] at h
    exact (h.begin fits).mono fun ho => (keeps.running ho).1
  | balk out lanes cause idle take fails ended keeps =>
    refine keeps.writesWhole (fun _ => unwritten_of_closed) ?_
    rw [(hstarted _ out).1, (hstarted _ out).2]
    rw [idle] at h
    exact h.refuse fails ended
  | write chunk left writing keeps =>
    refine keeps.writesWhole (fun _ => False.elim) ?_
    have houtput (writer : WriterStage) (outlet : Outlet) :
        (({ s with writer, outlet } : Session).note (.wrote chunk)).started = s.started ∧
        (({ s with writer, outlet } : Session).note (.wrote chunk)).output = s.output ++ chunk := by
      simp [started, output, note, Event.started?, Event.wrote?]
    rw [(houtput ..).1, (houtput ..).2]
    rw [writing] at h
    exact h.write.mono fun ho => (keeps.running ho).1

theorem Footprint.writesWhole {fiber : Fiber} (h : Footprint fiber s t) (hf : fiber ≠ .writer)
    (hs : s.WritesWhole) : t.WritesWhole := by
  obtain ⟨es, hes, htrace⟩ := h.trace
  obtain ⟨hstarted, houtput⟩ := output_eq (fun e he => unwritten_of_does (hes e he) hf) htrace
  unfold WritesWhole
  rw [hstarted, houtput, show t.settings = s.settings from h.works.settings,
    show t.writer = s.writer from (h.works.writer hf).1]
  exact hs.mono h.running

theorem Reachable.writesWhole (h : Reachable (start settings kind address capacity wall) s) :
    s.WritesWhole := by
  refine h.invariant (P := WritesWhole) ?_ (fun _ => id) (fun _ keeps hs => ?_) fun fiber first hsound hp hs => ?_
  · show Output _ _ .idle [] (wires [])
    exact .between fun out hout => by cases hout
  · refine keeps.writesWhole (fun _ => unwritten_of_outside) (Output.mono hs fun ho => (keeps.running ho).1)
  · by_cases hf : fiber = .writer
    · subst hf
      exact writesWhole_writerTurn hs hsound.coherent first
    · exact (footprint_turn hsound.coherent hp fiber first).writesWhole hf hs

/-! ### The lanes -/

/-- What a move does to the frames that were started and to the bytes on the link. -/
structure Carries (m : Move) (s t : Session) : Prop where
  /-- Only the writer starts a frame, one at a time. It is the first of its lane, and one of the normal
  lane only when no other waits. -/
  started : t.started = s.started ∨ ∃ first out rest, m = .run .writer first ∧ t.started = s.started ++ [out] ∧
    View.onLane out.lane s.outbox.state.toList = out :: rest ∧
    (out.lane = .normal → ∀ other ∈ s.outbox.state.toList, other.lane = .normal)
  /-- What the link takes over goes behind what it holds, and the far end takes from the front. -/
  output : ∃ chunk, t.output = s.output ++ chunk ∧
    s.outlet.held ++ chunk = s.outlet.held.take m.takes ++ t.outlet.held

end Session

namespace View

variable {u : View}

theorem Orderly.onLane_outbox (h : u.Orderly) (hco : u.Coherent) (lane : Lane) :
    onLane lane u.outbox.toList = u.outbox.lane lane := by
  cases hc : u.closed
  · obtain ⟨lost, hq, hl⟩ := h.queue_onLane hco lane
    obtain ⟨rest, hq', hr⟩ := h.lanes lane
    rw [hq', hl hc, hr hc, List.append_nil, onLane_append] at hq
    exact (List.append_cancel_left hq).symm
  · have hnone := hco.no_frames hc
    obtain ⟨hp, hn⟩ := List.append_eq_nil_iff.1 hnone
    rw [hnone]
    cases lane <;> simp [onLane, Lanes.lane, hp, hn]

/-- A frame is taken from the front of its lane, and one of the normal lane only when no other waits. -/
theorem Orderly.first_of_take (h : u.Orderly) (hco : u.Coherent) {lanes : Lanes Outgoing} {out : Outgoing}
    (ht : u.outbox.take = (lanes, some out)) :
    (∃ rest, onLane out.lane u.outbox.toList = out :: rest) ∧
      (out.lane = .normal → ∀ other ∈ u.outbox.toList, other.lane = .normal) := by
  have hlane (lane : Lane) {rest : List Outgoing} (hl : u.outbox.lane lane = out :: rest) :
      out.lane = lane ∧ onLane out.lane u.outbox.toList = out :: rest := by
    have hall : onLane lane u.outbox.toList = out :: rest := (h.onLane_outbox hco lane).trans hl
    have hout : out.lane = lane := lane_of_mem_onLane (hall ▸ List.mem_cons_self)
    exact ⟨hout, hout ▸ hall⟩
  rcases Lanes.lane_take ht with ⟨hp, -⟩ | ⟨hp, -, hn⟩
  · obtain ⟨hout, hall⟩ := hlane .priority hp
    exact ⟨⟨_, hall⟩, fun hnormal => by rw [hout] at hnormal; cases hnormal⟩
  · obtain ⟨-, hall⟩ := hlane .normal hn
    refine ⟨⟨_, hall⟩, fun _ other hother => ?_⟩
    rw [Lanes.toList, hp, List.nil_append] at hother
    have hmem : other ∈ onLane .normal u.outbox.toList := by
      rw [h.onLane_outbox hco .normal]
      exact hother
    exact lane_of_mem_onLane hmem

end View

namespace Session

variable {s t : Session} {settings : Settings} {kind : LinkKind} {address : Option String}
  {capacity : Option Nat} {wall : Stamp} {m : Move}

/-- A move of which the link sees nothing but that the far end takes bytes. -/
theorem Carries.of_quiet (hstarted : t.started = s.started) (houtput : t.output = s.output)
    (hheld : t.outlet.held = s.outlet.held.drop m.takes) : Carries m s t where
  started := .inl hstarted
  output := ⟨[], by rw [houtput, List.append_nil], by rw [hheld, List.append_nil, List.take_append_drop]⟩

theorem Keeps.carries {r : Session} {p : Event → Prop} {first : Bool} (keeps : Keeps p r t) (hp : ∀ e, p e → Unwritten e)
    (hstarted : r.started = s.started ∨ ∃ out rest, r.started = s.started ++ [out] ∧
      View.onLane out.lane s.outbox.state.toList = out :: rest ∧
      (out.lane = .normal → ∀ other ∈ s.outbox.state.toList, other.lane = .normal))
    (houtput : ∃ chunk, r.output = s.output ++ chunk ∧ r.outlet.held = s.outlet.held ++ chunk) :
    Carries (.run .writer first) s t := by
  obtain ⟨es, hes, htrace⟩ := keeps.trace
  obtain ⟨hs, ho⟩ := output_eq (fun e he => hp e (hes e he)) htrace
  have hheld : t.outlet.held = r.outlet.held := congrArg Works.held keeps.works
  refine ⟨?_, ?_⟩
  · rw [hs]
    exact hstarted.imp id fun ⟨out, rest, h⟩ => ⟨first, out, rest, rfl, h⟩
  · obtain ⟨chunk, hchunk, hr⟩ := houtput
    exact ⟨chunk, by rw [ho, hchunk], by rw [hheld, hr]; rfl⟩

theorem carries_writerTurn (hsound : s.view.Sound settings) (first : Bool) :
    Carries (.run .writer first) s (s.writerTurn first).1 := by
  have hsame : ∃ chunk, s.output = s.output ++ chunk ∧ s.outlet.held = s.outlet.held ++ chunk :=
    ⟨[], by simp⟩
  have htaken {lanes : Lanes Outgoing} {out : Outgoing} (take : s.outbox.state.take = (lanes, some out))
      (writer : WriterStage) : ∃ out' rest,
      (({ s with writer } : Session).note (.started out)).started = s.started ++ [out'] ∧
      View.onLane out'.lane s.outbox.state.toList = out' :: rest ∧
      (out'.lane = .normal → ∀ other ∈ s.outbox.state.toList, other.lane = .normal) := by
    obtain ⟨⟨rest, hall⟩, hnormal⟩ := hsound.orderly.first_of_take hsound.coherent take
    exact ⟨out, rest, by simp [started, note, Event.started?], hall, hnormal⟩
  have hnote (writer : WriterStage) (out : Outgoing) : ∃ chunk,
      (({ s with writer } : Session).note (.started out)).output = s.output ++ chunk ∧
      s.outlet.held = s.outlet.held ++ chunk := ⟨[], by simp [output, note, Event.wrote?]⟩
  cases writerTurn_cases hsound.coherent first with
  | rest keeps => exact keeps.carries (fun _ => False.elim) (.inl rfl) hsame
  | stop _ keeps => exact keeps.carries (fun _ => unwritten_of_closed) (.inl rfl) hsame
  | begin out lanes bytes _ take _ keeps =>
    exact keeps.carries (fun _ => False.elim) (.inr (htaken take _)) (hnote ..)
  | balk out lanes _ _ take _ _ keeps =>
    exact keeps.carries (fun _ => unwritten_of_closed) (.inr (htaken take _)) (hnote ..)
  | write chunk left _ keeps =>
    refine keeps.carries (fun _ => False.elim) (.inl ?_) ⟨chunk, ?_, rfl⟩
    · simp [started, note, Event.started?]
    · simp [output, note, Event.wrote?]

theorem carries_move (hsound : s.view.Sound settings) (hp : s.Placed) (hm : s.move? m = some t) :
    Carries m s t := by
  rcases move_cases hm with ⟨fiber, first, ready, ready', rfl, rfl⟩ | ⟨-, more, -, keeps⟩
  · let s₀ : Session := { s with ready }
    have hsound₀ : s₀.view.Sound settings := hsound
    by_cases hf : fiber = .writer
    · subst hf
      have h := carries_writerTurn hsound₀ first
      exact ⟨h.started, h.output⟩
    · have hfoot := footprint_turn (s := s₀) hsound.coherent hp fiber first
      obtain ⟨es, hes, htrace⟩ := hfoot.trace
      obtain ⟨hstarted, houtput⟩ := output_eq (fun e he => unwritten_of_does (hes e he) hf) htrace
      exact .of_quiet hstarted houtput (hfoot.works.writer hf).2
  · obtain ⟨es, hes, htrace⟩ := keeps.trace
    obtain ⟨hstarted, houtput⟩ := output_eq (fun e he => unwritten_of_outside (hes e he)) htrace
    exact .of_quiet hstarted houtput (congrArg Works.held keeps.works)

/-! ### Whole frames -/

theorem lane_eq_priority_iff (out : Outgoing) : out.lane = .priority ↔
    out.frame.flag = .ping ∨ out.frame.flag = .pingReturn ∨ out.frame.flag = .msgSendOk := by
  rw [Outgoing.lane]
  cases out.frame.flag <;> simp [Flag.isPriority]

/-- The link takes over whole frames in the order in which the writer took them from the queue, and of the
last perhaps a part. In each lane that is the order in which they were queued: while the session is open,
what was queued and not yet taken waits in the queue. Pings, their echoes and credit have a lane of their
own, and go first. -/
theorem carries_whole_frames (h : Reachable (start settings kind address capacity wall) s) :
    Output settings.maxSegment s.closed s.writer s.started s.output ∧
    (∀ lane, View.onLane lane s.started <+: View.onLane lane s.queued) ∧
    (s.closed = false → ∀ lane, View.onLane lane s.queued =
      View.onLane lane s.started ++ View.onLane lane s.outbox.state.toList) ∧
    (∀ out : Outgoing, out.lane = .priority ↔
      out.frame.flag = .ping ∨ out.frame.flag = .pingReturn ∨ out.frame.flag = .msgSendOk) ∧
    ∀ m t, s.move? m = some t → Carries m s t := by
  have hsound := h.sound
  have hsettings : s.settings = settings := hsound.configured
  refine ⟨hsettings ▸ h.writesWhole, fun lane => ?_, fun hopen lane => ?_, lane_eq_priority_iff,
    fun m t => carries_move hsound h.placed⟩
  · obtain ⟨rest, hq, -⟩ := hsound.orderly.lanes lane
    rw [← Pair.view_queued, hq, Pair.view_started]
    exact List.prefix_append _ _
  · obtain ⟨lost, hq, hl⟩ := hsound.orderly.queue_onLane hsound.coherent lane
    rw [← Pair.view_queued, hq, hl hopen, List.append_nil, View.onLane_append, Pair.view_started]
    rfl

/-- A request is queued before the first ping. The link has room for forty bytes when the user closes the
session. -/
def cutRequest : List Move :=
  [.ask .openConn, .run (.call 0) true, .run .pinger true, .run .writer true, .run .writer true,
    .run .writer true, .run .writer true, .close, .run .writer true]

/-- The ping has overtaken the request, which is cut behind its third byte. -/
theorem request_cut_behind_ping :
    ∃ s, Reachable (start (.build []) .tcp none (some 40) 0) s ∧
      s.queued.map (·.frame.flag) = [.newConn, .ping] ∧ s.started.map (·.frame.flag) = [.ping, .newConn] ∧
      s.output.length = 40 ∧ (wires s.started).length = 42 ∧
      Output (Settings.build []).maxSegment true .over s.started s.output := by
  have hplay : ((start (.build []) .tcp none (some 40) 0).playCalm cutRequest).any (fun s =>
      s.closed = true ∧ s.writer = .over ∧ s.queued.map (·.frame.flag) = [.newConn, .ping] ∧
      s.started.map (·.frame.flag) = [.ping, .newConn] ∧ s.output.length = 40 ∧
      (wires s.started).length = 42) = true := by
    decide +kernel
  obtain ⟨s, hs, hend⟩ := (Option.any_eq_true _ _).1 hplay
  obtain ⟨hclosed, hwriter, hqueued, hstarted, hlength, hwires⟩ := of_decide_eq_true hend
  have hreach := (undisturbed_of_playCalm .refl hs).reachable
  have houtput := (carries_whole_frames hreach).1
  rw [hclosed, hwriter] at houtput
  exact ⟨s, hreach, hqueued, hstarted, hlength, hwires, houtput⟩

end Session

end StreamMux
