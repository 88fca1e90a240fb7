import StreamMux.Proofs.Grammar
import StreamMux.Proofs.Output
import StreamMux.Proofs.Pieces
import StreamMux.Proofs.Requests
import StreamMux.Proofs.Routing

/-! The echoes of pings. The reader answers a ping in the turn in which it acts on it: the echo enters the
lane that overtakes all data, whatever else of the session waits. So what the far end can decode are the
echoes of the first pings, in their order. -/

namespace StreamMux

/-! ### The frames of a text -/

namespace Decoder

variable {maxSegment : Nat}

/-- The whole frames at the front of a text, up to the first fault. -/
def frames (maxSegment : Nat) : Decoder → Bytes → List Frame
  | _, [] => []
  | d, b :: bytes =>
    match d.step maxSegment b with
    | .more d => frames maxSegment d bytes
    | .frame f => f :: frames maxSegment .start bytes
    | .error _ => []

theorem frames_of_run {d : Decoder} {bytes rest : Bytes} {f : Frame} (h : d.run maxSegment bytes = .frame f rest) :
    frames maxSegment d bytes = f :: frames maxSegment .start rest := by
  induction bytes generalizing d with
  | nil => cases h
  | cons b bytes ih =>
    rw [run_cons] at h
    rw [frames]
    cases hstep : d.step maxSegment b with
    | more d' =>
      rw [hstep] at h
      exact ih h
    | frame g =>
      rw [hstep] at h
      cases h
      rfl
    | error cause =>
      rw [hstep] at h
      cases h

theorem frames_of_short {d d' : Decoder} {bytes : Bytes} (h : d.run maxSegment bytes = .short d') :
    frames maxSegment d bytes = [] := by
  induction bytes generalizing d with
  | nil => rfl
  | cons b bytes ih =>
    rw [run_cons] at h
    rw [frames]
    cases hstep : d.step maxSegment b with
    | more d' =>
      rw [hstep] at h
      exact ih h
    | frame g =>
      rw [hstep] at h
      cases h
    | error cause => rfl

theorem frames_wires {outs : List Outgoing} (h : Encodable maxSegment outs) (bytes : Bytes) :
    frames maxSegment .start (wires outs ++ bytes) = heardAs outs ++ frames maxSegment .start bytes := by
  induction outs with
  | nil => rfl
  | cons out outs ih =>
    have hrun := (run_of_encode (h out List.mem_cons_self) (wires outs ++ bytes)).2
    rw [show wires (out :: outs) = out.frame.wire ++ wires outs from rfl, List.append_assoc,
      frames_of_run hrun, ih fun o ho => h o (List.mem_cons_of_mem _ ho)]
    rfl

end Decoder

/-- What the link has taken over are the frames that the writer took, but perhaps the last, and a text that is
short of a frame. -/
theorem Output.exists_whole {maxSegment : Nat} {closed : Bool} {writer : WriterStage} {outs : List Outgoing}
    {text : Bytes} (h : Output maxSegment closed writer outs text) :
    ∃ whole last part d, outs = whole ++ last ∧ text = wires whole ++ part ∧
      Decoder.start.run maxSegment part = .short d ∧ Decoder.start.frames maxSegment text = heardAs whole ∧
      (writer = .idle → last = []) := by
  have hframes {outs : List Outgoing} {part : Bytes} {d : Decoder} (whole : Encodable maxSegment outs)
      (hshort : Decoder.start.run maxSegment part = .short d) :
      Decoder.start.frames maxSegment (wires outs ++ part) = heardAs outs := by
    rw [Decoder.frames_wires whole, Decoder.frames_of_short hshort, List.append_nil]
  have hnone : Decoder.start.run maxSegment [] = .short .start := rfl
  have hpart {outs : List Outgoing} {out : Outgoing} {part rest : Bytes} (whole : Encodable maxSegment outs)
      (fits : out.frame.encode maxSegment = .ok (part ++ rest)) (unwritten : rest ≠ []) :
      ∃ d, Decoder.start.run maxSegment part = .short d := by
    obtain ⟨hwire, -⟩ := Decoder.run_of_encode fits []
    have hfit : out.frame.Fits maxSegment := by
      by_contra hfit
      rw [Frame.encode_of_not_fits hfit] at fits
      cases fits
    exact Decoder.run_part hfit ⟨rest, hwire⟩ fun he => unwritten (by simpa [← hwire] using he)
  cases h with
  | between whole =>
    exact ⟨outs, [], [], _, by simp, by simp, hnone, by simpa using hframes whole hnone, fun _ => rfl⟩
  | within whole fits unwritten =>
    obtain ⟨d, hd⟩ := hpart whole fits unwritten
    exact ⟨_, _, _, d, rfl, rfl, hd, hframes whole hd, fun hw => by cases hw⟩
  | done _ whole =>
    exact ⟨outs, [], [], _, by simp, by simp, hnone, by simpa using hframes whole hnone, fun _ => rfl⟩
  | cut _ whole fits unwritten =>
    obtain ⟨d, hd⟩ := hpart whole fits unwritten
    exact ⟨_, _, _, d, rfl, rfl, hd, hframes whole hd, fun hw => by cases hw⟩
  | refused _ whole _ =>
    exact ⟨_, _, [], _, rfl, by simp, hnone, by simpa using hframes whole hnone, fun hw => by cases hw⟩

/-- What a reader sees of a frame is written as the frame. -/
theorem Frame.wire_normal (f : Frame) : f.normal.wire = f.wire := by
  unfold wire body normal bytes
  dsimp only
  split
  · rfl
  · split <;> simp_all

/-! ### Pings and their echoes -/

/-- The payload of a ping. -/
def Frame.pinged? (f : Frame) : Option Bytes := if f.flag = .ping then f.payload else none

def Frame.IsEcho (f : Frame) : Prop := f.flag = .pingReturn

instance (f : Frame) : Decidable f.IsEcho := inferInstanceAs (Decidable (_ = _))

/-- The echo of a payload, as the reader queues it. -/
def Outgoing.echo (payload : Bytes) : Outgoing := { frame := .pingReturn payload }

/-- The event tells of no frame that the reader acted on, and of no echo that was queued. -/
def Event.Unheard (e : Event) : Prop :=
  e.dispatched? = none ∧ ∀ out, e.queued? = some out → ¬ out.frame.IsEcho

namespace Session

variable {r s t : Session} {settings : Settings} {kind : LinkKind} {address : Option String}
  {capacity : Option Nat} {wall : Stamp} {m : Move} {f : Frame}

/-- The payloads of the pings that the reader acted on. -/
def pinged (s : Session) : List Bytes := s.dispatched.filterMap Frame.pinged?

/-- The echoes that were queued. -/
def echoes (s : Session) : List Outgoing := s.queued.filter (·.frame.IsEcho)

/-- The whole frames on the link, as a reader of it sees them. -/
def sent (s : Session) : List Frame := Decoder.start.frames s.settings.maxSegment s.output

/-- The echo that a frame gets: that of its payload, if it is a ping and the session is open. -/
def replies (f : Frame) (s : Session) : List Outgoing :=
  if s.closed then [] else f.pinged?.toList.map .echo

/-- What a move does to the frames that the reader acted on and to the echoes. Only the reader adds to them,
a frame with what that frame gets. -/
inductive Answers (m : Move) (s t : Session) : Prop
  | quiet (dispatched : t.dispatched = s.dispatched) (echoes : t.echoes = s.echoes)
  | hears (f : Frame) (reads : ∃ first, m = .run .reader first) (dispatched : t.dispatched = s.dispatched ++ [f])
      (echoes : t.echoes = s.echoes ++ s.replies f)

/-! ### Turns -/

/-- Events that tell of no frame and no echo. -/
theorem echoes_append {es : List Event} (hes : ∀ e ∈ es, e.Unheard) (htrace : t.trace = es ++ s.trace) :
    t.dispatched = s.dispatched ∧ t.echoes = s.echoes := by
  refine ⟨by rw [dispatched, dispatched, htrace, history_append fun e he => (hes e he).1], ?_⟩
  have hnone : (history Event.queued? es).filter (·.frame.IsEcho) = [] := by
    refine List.filter_eq_nil_iff.2 fun out hout => ?_
    obtain ⟨e, he, hqueued⟩ := mem_history.1 hout
    simpa using (hes e he).2 out hqueued
  have hsplit : history Event.queued? (es ++ s.trace) =
      history Event.queued? s.trace ++ history Event.queued? es := by
    simp [history]
  rw [echoes, queued, htrace, hsplit, List.filter_append, hnone, List.append_nil]
  rfl

theorem Keeps.echoes_eq {p : Event → Prop} (keeps : Keeps p s t) (hp : ∀ e, p e → e.Unheard) :
    t.dispatched = s.dispatched ∧ t.echoes = s.echoes := by
  obtain ⟨es, hes, htrace⟩ := keeps.trace
  exact echoes_append (fun e he => hp e (hes e he)) htrace

theorem unheard_of_does {fiber : Fiber} {e : Event} (h : fiber.Does e) (hf : fiber ≠ .reader) : e.Unheard := by
  unfold Fiber.Does at h
  cases e with
  | dispatched => cases fiber <;> simp_all [Fiber.records]
  | queued out =>
    refine ⟨rfl, fun o ho hecho => ?_⟩
    obtain rfl : out = o := Option.some.inj ho
    rw [Fiber.records, show out.frame.flag = .pingReturn from hecho] at h
    cases fiber <;> simp_all [Fiber.queues]
  | _ => exact ⟨rfl, fun _ ho => by cases ho⟩

theorem unheard_of_connClose {out : Outgoing} (h : out.frame.flag = .connClose) : (Event.queued out).Unheard := by
  refine ⟨rfl, fun o ho hecho => ?_⟩
  obtain rfl : out = o := Option.some.inj ho
  rw [Frame.IsEcho, h] at hecho
  cases hecho

theorem unheard_of_outside {e : Event} (h : e.isOutside = true) : e.Unheard := by
  cases e with
  | dispatched => cases h
  | queued out => exact unheard_of_connClose (by simpa [Event.isOutside] using h)
  | _ => exact ⟨rfl, fun _ ho => by cases ho⟩

theorem OfRouting.unheard {e : Event} (h : OfRouting e) : e.Unheard := by
  cases e with
  | queued out => exact unheard_of_connClose h
  | routed | buffered => exact ⟨rfl, fun _ ho => by cases ho⟩
  | _ => cases h

/-- The reader acts on a frame. -/
theorem echoes_receive (h : s.view.Coherent) (f : Frame) (rest : Bytes) :
    (({ s with inlet := { s.inlet with bytes := rest } } : Session).receive f).dispatched = s.dispatched ++ [f] ∧
    (({ s with inlet := { s.inlet with bytes := rest } } : Session).receive f).echoes =
      s.echoes ++ s.replies f := by
  let heard : Session := (({ s with
    inlet := { s.inlet with bytes := rest }
    throughput := s.throughput.add f.bytes.length
    idleTicks := 0
    reader := .between } : Session).note (.dispatched f))
  have hheard : heard.dispatched = s.dispatched ++ [f] ∧ heard.echoes = s.echoes := by
    simp [heard, dispatched, echoes, queued, note, Event.dispatched?, Event.queued?]
  -- a frame that is no ping gets no echo, and none is queued
  have hother {t : Session} (hf : f.flag = .ping → f.payload = none)
      (hsame : t.dispatched = heard.dispatched ∧ t.echoes = heard.echoes) :
      t.dispatched = s.dispatched ++ [f] ∧ t.echoes = s.echoes ++ s.replies f := by
    have hnone : s.replies f = [] := by
      have hping : f.pinged? = none := by
        unfold Frame.pinged?
        split
        · exact hf ‹_›
        · rfl
      rw [replies, hping]
      split <;> rfl
    rw [hsame.1, hsame.2, hnone, List.append_nil]
    exact hheard
  have hquiet {t : Session} (keeps : Keeps (fun _ => False) heard t) :
      t.dispatched = heard.dispatched ∧ t.echoes = heard.echoes := keeps.echoes_eq fun _ => False.elim
  unfold receive dispatch
  dsimp only
  split
  · rename_i hflag
    refine hother (by simp [hflag]) ?_
    have hstaged (e : Event) (he : e ∈ [Event.staged s.conns.length]) : e.Unheard := by
      rw [List.mem_singleton.1 he]
      exact ⟨rfl, fun _ ho => by cases ho⟩
    refine echoes_append hstaged ?_
    show (heard.stage f.id).trace = _
    cases hpush : heard.staged.push .normal heard.conns.length with
    | some pushed => rw [stage_of_push hpush]; rfl
    | none =>
      rw [stage_of_stopped hpush, ((Keeps.refl (p := fun _ => False) _).shutConn _).trace_eq]
      rfl
  · rename_i payload hflag hpayload
    have hping : f.pinged? = some payload := by rw [Frame.pinged?, if_pos hflag, hpayload]
    show (heard.postOrDrop (.echo payload)).dispatched = _ ∧ (heard.postOrDrop (.echo payload)).echoes = _
    unfold postOrDrop
    cases hclosed : s.closed
    · obtain ⟨outbox, ready, -, hpost⟩ := exists_post (s := heard) hclosed (h.outbox.trans hclosed)
        (.echo payload)
      rw [hpost, replies, hclosed, hping, ← hheard.2, ← hheard.1]
      simp [dispatched, echoes, queued, Event.dispatched?, Event.queued?, Frame.IsEcho, Outgoing.echo,
        Frame.pingReturn]
    · have hpost : heard.post (.echo payload) = none := if_pos hclosed
      rw [hpost, replies, hclosed, if_pos rfl, List.append_nil]
      exact hheard
  · rename_i hflag _
    exact hother (by simp [hflag]) (hquiet ((Keeps.refl _).of_eq rfl rfl rfl rfl rfl))
  · rename_i hpayload
    exact hother (fun _ => hpayload) (hquiet (.refl _))
  · rename_i hpayload
    exact hother (fun _ => hpayload) (hquiet (.refl _))
  · rename_i hping _ _ _
    refine hother (fun hflag => ?_) (((Keeps.refl heard).route (fun _ => id) f).echoes_eq fun _ => OfRouting.unheard)
    cases hpayload : f.payload with
    | none => rfl
    | some payload => exact absurd hpayload (hping payload hflag)

theorem answers_move (h : s.view.Coherent) (hp : s.Placed) (hm : s.move? m = some t) : Answers m s t := by
  rcases move_cases hm with ⟨fiber, first, ready, ready', rfl, rfl⟩ | ⟨-, more, -, keeps⟩
  · let s₀ : Session := { s with ready }
    by_cases hf : fiber = .reader
    · subst hf
      rcases readerTurn_receives first s₀ with keeps | ⟨-, f, rest, -, -, hturn⟩
      · obtain ⟨hd, he⟩ := keeps.echoes_eq fun e he => unheard_of_outside (he ▸ rfl)
        exact .quiet hd he
      · obtain ⟨hd, he⟩ := echoes_receive (s := s₀) h f rest
        rw [← hturn] at hd he
        exact .hears f ⟨first, rfl⟩ hd he
    · obtain ⟨es, hes, htrace⟩ := (footprint_turn (s := s₀) h hp fiber first).trace
      obtain ⟨hd, he⟩ := echoes_append (fun e he => unheard_of_does (hes e he) hf) htrace
      exact .quiet hd he
  · obtain ⟨hd, he⟩ := keeps.echoes_eq fun _ => unheard_of_outside
    exact .quiet hd he

/-! ### Runs -/

/-- Every ping got its echo, in order, but for those that came in after the end of the session. -/
def Echoed (s : Session) : Prop :=
  ∃ late, s.pinged.map .echo = s.echoes ++ late ∧ (s.closed = false → late = [])

theorem Answers.echoed (ha : Answers m s t) (h : s.Echoed) (hc : t.closed = false → s.closed = false) :
    t.Echoed := by
  obtain ⟨late, hlate, hnone⟩ := h
  cases ha with
  | quiet dispatched echoes => exact ⟨late, by rw [pinged, dispatched, echoes]; exact hlate, hnone ∘ hc⟩
  | hears f _ dispatched echoes =>
    have hpinged : t.pinged = s.pinged ++ f.pinged?.toList := by
      rw [pinged, dispatched, List.filterMap_append, pinged]
      cases hf : f.pinged? <;> simp [hf]
    rw [Echoed, hpinged, List.map_append, hlate, echoes, replies]
    cases hopen : s.closed
    · rw [hnone hopen]
      exact ⟨[], by simp, fun _ => rfl⟩
    · refine ⟨late ++ f.pinged?.toList.map .echo, by simp, fun ht => ?_⟩
      rw [hc ht] at hopen
      cases hopen

theorem Reachable.echoed (h : Reachable (start settings kind address capacity wall) s) : s.Echoed := by
  induction h with
  | refl => exact ⟨[], rfl, fun _ => rfl⟩
  | @move s t m hs hm ih =>
    exact (answers_move hs.sound.coherent hs.placed hm).echoed ih (running_of_move hs.sound.coherent hm)

/-- Echoes keep to the lane that overtakes. -/
theorem filter_isEcho_onLane (outs : List Outgoing) :
    (View.onLane .priority outs).filter (·.frame.IsEcho) = outs.filter (·.frame.IsEcho) := by
  rw [View.onLane, List.filter_filter]
  refine List.filter_congr fun out _ => ?_
  by_cases hecho : out.frame.IsEcho
  · simp [hecho, (lane_eq_priority_iff out).2 (.inr (.inl hecho))]
  · simp [hecho]

/-- The echoes that were queued are those that the writer took, and those that wait. -/
theorem exists_waiting (h : s.view.Orderly) : ∃ waiting, s.echoes = s.started.filter (·.frame.IsEcho) ++ waiting ∧
    (s.closed = false → s.outbox.state.toList = [] → waiting = []) := by
  obtain ⟨rest, hq, hrest⟩ := h.lanes .priority
  rw [Pair.view_queued, Pair.view_started] at hq
  refine ⟨rest.filter (·.frame.IsEcho), ?_, fun hopen hempty => ?_⟩
  · rw [echoes, ← filter_isEcho_onLane, hq, List.filter_append, filter_isEcho_onLane]
  · have hlane : rest = s.outbox.state.priority := hrest hopen
    rw [hlane, (List.append_eq_nil_iff.1 hempty).1]
    rfl

/-- What is on the link are the frames that can be read there, and a text that is short of a frame. -/
theorem exists_part (h : s.WritesWhole) : ∃ part d, s.output = s.sent.flatMap Frame.wire ++ part ∧
    Decoder.start.run s.settings.maxSegment part = .short d := by
  obtain ⟨whole, -, part, d, -, houtput, hshort, hsent, -⟩ := Output.exists_whole h
  refine ⟨part, d, ?_, hshort⟩
  have hwires : (heardAs whole).flatMap Frame.wire = wires whole := by
    rw [heardAs, List.flatMap_map]
    exact List.flatMap_congr fun out _ => Frame.wire_normal out.frame
  rw [houtput, sent, hsent, hwires]

/-- The echoes on the link are those of the frames that the writer took, but perhaps of the last. -/
theorem exists_unsent (h : s.WritesWhole) : ∃ last,
    (s.started.filter (·.frame.IsEcho)).map (·.frame.normal) = s.sent.filter (·.IsEcho) ++ last ∧
    (s.writer = .idle → last = []) := by
  obtain ⟨whole, last, -, -, hstarted, -, -, hsent, hidle⟩ := Output.exists_whole h
  have hfilter (outs : List Outgoing) : (outs.filter (·.frame.IsEcho)).map (·.frame.normal) =
      (heardAs outs).filter (·.IsEcho) := by
    rw [heardAs, List.filter_map]
    rfl
  refine ⟨(heardAs last).filter (·.IsEcho), ?_, fun hw => by rw [hidle hw]; rfl⟩
  rw [hfilter, hstarted, heardAs, List.map_append, List.filter_append, sent, hsent]
  rfl

/-- A turn of the reader of an open session in which a whole frame is there. -/
theorem taken_of_run {goesOn : Bool} (hf : ReaderFeeds s t goesOn) (hopen : s.closed = false) {d : Decoder}
    {rest : Bytes} (hreader : s.reader = .reading d)
    (hrun : d.run s.settings.maxSegment s.inlet.bytes = .frame f rest) :
    t.closed = false ∧ t.inlet.bytes = rest ∧ t.dispatched = s.dispatched ++ [f] := by
  have hreading {p : Prop} {stage : ReaderStage} (h : s.reader = stage)
      (hne : ∀ d, stage ≠ .reading d) : p := absurd (h.symm.trans hreader) (hne d)
  have hsame {d' : Decoder} (h : s.reader = .reading d') :
      d'.run s.settings.maxSegment s.inlet.bytes = .frame f rest := by
    obtain rfl : d' = d := ReaderStage.reading.inj (h.symm.trans hreader)
    exact hrun
  cases hf with
  | stays why =>
    rcases why with hover | ⟨payload, hhanding, -⟩
    · exact hreading hover (by simp)
    · exact hreading hhanding (by simp)
  | leaves ended => simp [hopen] at ended
  | drops ended => simp [hopen] at ended
  | starts _ stage => exact hreading stage (by simp)
  | hands stage => exact hreading stage (by simp)
  | faults stage run => cases run.symm.trans (hsame stage)
  | ends stage run => cases run.symm.trans (hsame stage)
  | waits stage run => cases run.symm.trans (hsame stage)
  | takes stage run _ closed _ supply =>
    cases run.symm.trans (hsame stage)
    exact ⟨closed.trans hopen, congrArg (fun x : Supply => x.inlet.bytes) supply,
      congrArg Supply.dispatched supply⟩

/-- The reader of an open session acts in its next turn on a frame that has come in whole. -/
theorem Reachable.exists_reads (h : Reachable (start settings kind address capacity wall) s)
    (hopen : s.closed = false) {d : Decoder} {rest : Bytes} (hreader : s.reader = .reading d)
    (hrun : d.run s.settings.maxSegment s.inlet.bytes = .frame f rest) (first : Bool) :
    ∃ t, s.move? (.run .reader first) = some t ∧ t.closed = false ∧ t.inlet.bytes = rest ∧
      t.dispatched = s.dispatched ++ [f] ∧ t.echoes = s.echoes ++ s.replies f := by
  have hready : .reader ∈ s.ready := by
    refine (h.alert hopen).reader ?_
    simp only [Supply.CanRead, supply, hreader]
    left
    rintro hnone
    rw [hnone] at hrun
    cases hrun
  have hm : s.move? (.run .reader first) = some (s.run .reader first) := if_pos hready
  refine ⟨_, hm, ?_⟩
  have hstays : (s.run .reader first).closed = false ∧ (s.run .reader first).inlet.bytes = rest ∧
      (s.run .reader first).dispatched = s.dispatched ++ [f] := by
    cases feeds_move hm with
    | apart others => exact absurd rfl (others first).1
    | reads turn next =>
      rw [next]
      split <;> exact taken_of_run turn hopen hreader hrun
  obtain ⟨hclosed, hrest, hdispatched⟩ := hstays
  refine ⟨hclosed, hrest, hdispatched, ?_⟩
  cases answers_move h.sound.coherent h.placed hm with
  | quiet dispatched => simp [dispatched] at hdispatched
  | hears g _ dispatched echoes =>
    obtain rfl : g = f := by simpa [dispatched] using hdispatched
    exact echoes

/-- In every run, whatever comes in and whatever else the session does, the echoes on the link are those of
the first pings that the reader acted on, each with the payload of its ping and the id of the session; and of
all of them, if the session is open, its queue is empty and the writer is between two frames. The reader queues
the echo in the turn in which it acts on the ping. It need only wait for bytes, or for room for a returned
ping, so no window, accept or write keeps it from that. -/
theorem pings_are_echoed (h : Reachable (start settings kind address capacity wall) s) :
    (∃ part d, s.output = s.sent.flatMap Frame.wire ++ part ∧
      Decoder.start.run settings.maxSegment part = .short d) ∧
    s.sent.filter (·.IsEcho) <+: s.pinged.map Frame.pingReturn ∧
    (s.closed = false → s.outbox.state.toList = [] → s.writer = .idle →
      s.sent.filter (·.IsEcho) = s.pinged.map Frame.pingReturn) ∧
    (∀ m t, s.move? m = some t → Answers m s t) ∧
    (s.closed = false → s.supply.CanRead → .reader ∈ s.ready) ∧
    (∀ d f rest first, s.closed = false → s.reader = .reading d →
      d.run settings.maxSegment s.inlet.bytes = .frame f rest →
      ∃ t, s.move? (.run .reader first) = some t ∧ t.closed = false ∧ t.inlet.bytes = rest ∧
        t.dispatched = s.dispatched ++ [f] ∧ t.echoes = s.echoes ++ s.replies f) := by
  obtain rfl : s.settings = settings := h.sound.configured
  obtain ⟨late, hlate, hnolate⟩ := h.echoed
  obtain ⟨waiting, hwaiting, hnowait⟩ := exists_waiting h.sound.orderly
  obtain ⟨last, hlast, hnolast⟩ := exists_unsent h.writesWhole
  have hall : s.pinged.map Frame.pingReturn =
      s.sent.filter (·.IsEcho) ++ last ++ (waiting ++ late).map (·.frame.normal) := by
    have hechoes : s.pinged.map Frame.pingReturn = (s.pinged.map Outgoing.echo).map (·.frame.normal) := by
      rw [List.map_map]
      rfl
    rw [hechoes, hlate, hwaiting, List.append_assoc, List.map_append, hlast]
  refine ⟨exists_part h.writesWhole, ⟨_, (hall.trans (List.append_assoc ..)).symm⟩,
    fun hopen hempty hidle => ?_, fun m t => answers_move h.sound.coherent h.placed,
    fun hopen => (h.alert hopen).reader,
    fun d f rest first hopen hreader hrun => h.exists_reads hopen hreader hrun first⟩
  rw [hall, hnolast hidle, hnowait hopen hempty, hnolate hopen]
  simp

/-- The peer asks for a connection, which the user accepts and writes on. The link takes three bytes of the
frame that confirms it. Then the peer asks for another connection, which nobody accepts, and sends two pings.
Much later the link takes the rest. -/
def pingsBehindStall : List Move :=
  [.run .reader true, .deliver [6, 1, 0, 0, 0], .run .reader true, .run .acceptor true, .run .acceptor true,
    .ask .accept, .run (.call 0) true, .run (.call 0) true,
    .ask (.write 0 [120]), .run (.call 1) true, .run (.call 1) true, .run (.call 1) true,
    .run .writer true, .run .writer true, .run .reader true,
    .deliver [6, 2, 0, 0, 0, 0, 7, 0, 0, 0, 2, 0, 97, 98, 0, 255, 255, 255, 255, 0, 0]] ++
  List.replicate 6 (.run .reader true) ++ .resizeOutput none :: List.replicate 8 (.run .writer true)

/-- The echoes overtake the data that was queued before them. -/
theorem stall_keeps_echoes :
    ∃ s, Reachable (start (.build []) .tcp none (some 3) 0) s ∧ s.staged.state.toList = [1] ∧
      s.sent = [.control .newConnOk 1, .pingReturn [97, 98], .pingReturn [], .data 1 [120] false] ∧
      s.sent.filter (·.IsEcho) = s.pinged.map Frame.pingReturn ∧ s.pinged = [[97, 98], []] := by
  have hplay : ((start (.build []) .tcp none (some 3) 0).playCalm pingsBehindStall).any (fun s =>
      s.closed = false ∧ s.outbox.state.toList = [] ∧ s.writer = .idle ∧ s.staged.state.toList = [1] ∧
      s.sent = [.control .newConnOk 1, .pingReturn [97, 98], .pingReturn [], .data 1 [120] false] ∧
      s.pinged = [[97, 98], []]) = true := by
    decide +kernel
  obtain ⟨s, hs, hend⟩ := (Option.any_eq_true _ _).1 hplay
  obtain ⟨hopen, hempty, hidle, hstaged, hsent, hpinged⟩ := of_decide_eq_true hend
  have hreach := (undisturbed_of_playCalm .refl hs).reachable
  exact ⟨s, hreach, hstaged, hsent, (pings_are_echoed hreach).2.2.1 hopen hempty hidle, hpinged⟩

end Session

end StreamMux
