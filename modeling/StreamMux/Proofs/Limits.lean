import StreamMux.Proofs.Halting
import StreamMux.Proofs.Lossless
import StreamMux.Proofs.Pulse
import StreamMux.Proofs.Thrift

/-! No session queues a frame that its peer refuses. A segment is cut to the limit, a stamp is short, and
an echo is as long as the ping, which came in within the same limit. So of two sessions with one segment
size neither ends over a frame, whatever their users ask for. -/

namespace StreamMux

/-! ### Frames within their limits -/

namespace Frame

variable {maxSegment : Nat} {f : Frame} {payload : Bytes}

/-- The frame can be written, and is what a reader with the same limit sees. -/
def Accepted (maxSegment : Nat) (f : Frame) : Prop :=
  f.encode maxSegment = .ok f.wire ∧ ∀ rest, Frame.read maxSegment (f.wire ++ rest) = (.ok f, rest)

theorem Fits.accepted (h : f.Fits maxSegment) (hn : f.normal = f) : f.Accepted maxSegment :=
  ⟨encode_of_fits h, fun rest => by rw [read_wire h, hn]⟩

theorem fits_of_bare (h : f.flag.hasPayload = false) : f.Fits maxSegment := by
  intro hp
  rw [h] at hp
  cases hp

/-- A segment that the length field can announce is within the limit. -/
theorem fits_data (id : Int32) (part : Bool) (hmax : maxSegment ≤ maxPayload)
    (h : payload.length ≤ maxSegment) : (data id payload part).Fits maxSegment := by
  intro _
  cases part <;> exact Nat.le_min.2 ⟨h, h.trans hmax⟩

theorem fits_pingReturn (hflag : f.flag = .ping) (hp : f.payload = some payload) (h : f.Fits maxSegment) :
    (pingReturn payload).Fits maxSegment := by
  intro _
  have hle := h (by rw [hflag]; rfl)
  rwa [hflag, bytes, hp] at hle

/-- A stamp is within every limit. -/
theorem fits_stamp (maxSegment : Nat) (stamp : Stamp) : (ping stamp.render).Fits maxSegment := by
  intro _
  have hlong : poolBufferSize ≤ Flag.ping.payloadLimit maxSegment :=
    Nat.le_min.2 ⟨Nat.le_max_right .., by decide⟩
  exact Nat.le_trans (by rw [bytes, ping, Option.getD_some, Stamp.length_render]; decide) hlong

end Frame

/-! ### Frames that come in -/

namespace Ends

variable {x y : Ends}

/-- The reader has acted on frames within their limits, and holds the beginning of the next. -/
structure Heard (x : Ends) : Prop where
  fits : ∀ f ∈ x.dispatched, f.Fits x.maxSegment
  holds : ∃ got, x.reader.Holds x.maxSegment got

/-- What came in may have changed, and what waits to go out. -/
theorem Heard.of_eq (h : x.Heard) (hm : y.maxSegment = x.maxSegment) (hr : y.reader = x.reader)
    (hd : y.dispatched = x.dispatched) : y.Heard :=
  ⟨by rw [hd, hm]; exact h.fits, by rw [hr, hm]; exact h.holds⟩

theorem Turn.heard (ht : x.Turn y) (h : x.Heard) : y.Heard := by
  cases ht with
  | same | begin | balk | write | quit => exact h.of_eq rfl rfl rfl
  | start => exact ⟨h.fits, [], rfl⟩
  | @take d f rest reader hr hd hreader =>
    obtain ⟨got, hgot⟩ := h.holds
    rw [hr] at hgot
    have hrun : Decoder.run x.maxSegment .start (got ++ x.arrived) = .frame f rest :=
      (hgot.run x.arrived).trans hd
    refine ⟨fun g hg => ?_, [], by rcases hreader with rfl | ⟨payload, rfl⟩ <;> rfl⟩
    rcases List.mem_append.1 hg with hg | hg
    · exact h.fits g hg
    · rw [List.mem_singleton.1 hg]
      exact (Decoder.wire_of_run hrun).1
  | @gather d d' reader hr hd hreader =>
    refine ⟨h.fits, ?_⟩
    rcases hreader with rfl | rfl
    · obtain ⟨got, hgot⟩ := h.holds
      rw [hr] at hgot
      exact ⟨got ++ x.arrived, (hgot.run x.arrived).trans hd⟩
    · exact ⟨[], rfl⟩
  | fault | pass | leave => exact ⟨h.fits, [], rfl⟩

end Ends

namespace Session

variable {s t : Session} {m : Move}

theorem heard_move (hm : s.move? m = some t) (h : s.ends.Heard) : t.ends.Heard := by
  by_cases hown : m.isOwn = true
  · rwa [ends_of_own hown hm]
  cases m with
  | deliver bytes =>
    cases hm
    rw [ends_deliver]
    exact h.of_eq rfl rfl rfl
  | endInput ending =>
    cases hm
    rwa [ends_endInput]
  | takeOutput count =>
    cases hm
    rw [ends_takeOutput]
    exact h.of_eq rfl rfl rfl
  | breakOutput =>
    cases hm
    rwa [ends_breakOutput]
  | advance span =>
    cases hm
    exact h
  | run fiber first =>
    simp only [move?] at hm
    split at hm <;> cases hm
    obtain ⟨ready, hready⟩ := exists_run fiber first s
    rw [hready]
    exact (s.turn_takeTurn fiber first).heard h
  | _ => exact absurd rfl hown

end Session

/-! ### Frames that go out -/

namespace View

variable {v w : View} {may : View → Nat → Prop}

/-- Where a frame that a step queues comes from, by what bounds its payload. -/
inductive Source (v w : View) : Frame → Prop
  /-- Requests and their answers, credit, and the end of a connection have none. -/
  | bare {f : Frame} (h : f.flag.hasPayload = false) : Source v w f
  | segment (id : Int32) {data : Bytes} (part : Bool) (h : data.length ≤ v.settings.maxSegment) :
      Source v w (.data id data part)
  | ping (payload : Bytes) : Source v w (.ping payload)
  /-- The ping has come in. -/
  | echo {f : Frame} {payload : Bytes} (hf : f ∈ w.dispatched) (hflag : f.flag = .ping)
      (hp : f.payload = some payload) : Source v w (.pingReturn payload)

/-- A step queues one frame at most. -/
inductive Queues (v w : View) : Prop
  | nothing (queued : w.queued = v.queued)
  | frame (out : Outgoing) (source : Source v w out.frame) (queued : w.queued = v.queued ++ [out])

/-- A frame is posted, or dropped, in a view that has queued what `v` has. -/
theorem Queues.of_post {out : Outgoing} {x : View} (hw : w.queued = (x.post out).queued)
    (hx : x.queued = v.queued) (source : Source v w out.frame) : Queues v w := by
  cases hc : x.closed
  · exact .frame out source (by rw [hw, queued_post out hc, hx])
  · exact .nothing (by rw [hw, post_of_closed out hc, hx])

theorem queues_closeConn (n : Nat) {x : View} (hx : x.queued = v.queued) : Queues v (x.closeConn n) := by
  refine closeConn_cases (P := Queues v) (.nothing hx) fun f hf hopen => ?_
  rw [closeConn_of_open hf hopen]
  cases hclosing : f.closing
  · have hsay : x.sayClosed n f = x.post { frame := .control .connClose f.id, conn := n } := by
      simp [sayClosed, hclosing]
    exact .of_post (by rw [← hsay]; rfl) hx (.bare rfl)
  · have hsay : x.sayClosed n f = x := by simp [sayClosed, hclosing]
    exact .nothing (by rw [hsay]; exact hx)

theorem Step.queues (hs : Step may v w) : Queues v w := by
  cases hs with
  | ask | goOn | award | refuse | accept | serve | look | waste | start | stage | stageLate | discard | enter
  | hollow | answer | grant | farewell | register | retire | close => exact .nothing rfl
  | request | report | turnAway | publish => exact .of_post rfl rfl (.bare (by rfl))
  | leave n => exact queues_closeConn n rfl
  | overflow => exact queues_closeConn _ rfl
  | ping payload => exact .of_post rfl rfl (.ping payload)
  | @send call n written credit data stage f send asked hstage hf running ha =>
    refine .of_post rfl rfl ?_
    have hle := SendWindow.le_of_acquire ha
    refine .segment f.id _ ?_
    rw [List.length_take]
    omega
  | @echo frame payload hflag hp =>
    refine .of_post rfl rfl ?_
    refine .echo (f := frame) ?_ hflag hp
    rw [dispatched_post, dispatched_note]
    simp [Event.dispatched?]

/-- Every frame that was queued is within its limit, but for what a ping carries. -/
def Within (v : View) : Prop := ∀ out ∈ v.queued, out.frame.flag ≠ .ping → out.frame.Fits v.settings.maxSegment

theorem Source.fits {f : Frame} (h : Source v w f) (hmax : v.settings.maxSegment ≤ maxPayload)
    (hheard : ∀ f ∈ w.dispatched, f.Fits v.settings.maxSegment) (hping : f.flag ≠ .ping) :
    f.Fits v.settings.maxSegment := by
  cases h with
  | bare h => exact Frame.fits_of_bare h
  | segment id part h => exact Frame.fits_data id part hmax h
  | ping => exact absurd rfl hping
  | echo hf hflag hp => exact Frame.fits_pingReturn hflag hp (hheard _ hf)

theorem Step.within (hs : Step may v w) (hmax : v.settings.maxSegment ≤ maxPayload)
    (hheard : ∀ f ∈ w.dispatched, f.Fits v.settings.maxSegment) (h : v.Within) : w.Within := by
  intro out hout hping
  rw [hs.settings]
  cases hs.queues with
  | nothing queued => exact h out (queued ▸ hout) hping
  | frame new source queued =>
    rcases List.mem_append.1 (queued ▸ hout) with hout | hout
    · exact h out hout hping
    · rw [List.mem_singleton.1 hout] at hping ⊢
      exact source.fits hmax hheard hping

/-- If only frames within their limits came in, only such frames went out. -/
theorem Steps.within (hs : Steps may v w) (hmax : v.settings.maxSegment ≤ maxPayload)
    (hheard : ∀ f ∈ w.dispatched, f.Fits v.settings.maxSegment) (h : v.Within) :
    w.Within ∧ w.settings = v.settings := by
  induction hs with
  | refl => exact ⟨h, rfl⟩
  | @tail x y hxs hs ih =>
    obtain ⟨hx, hsettings⟩ := ih fun f hf => hheard f (hs.dispatched_prefix.subset hf)
    exact ⟨hs.within (hsettings ▸ hmax) (hsettings ▸ hheard) hx, hs.settings.trans hsettings⟩

end View

/-- Every ping that was queued carries a stamp. -/
def Stamped (trace : List Event) : Prop := ∀ f ∈ history Event.ping? trace, ∃ stamp : Stamp, f = .ping stamp.render

theorem Stamped.append {trace : List Event} (h : Stamped trace) (es : List Event) (hes : ∀ e ∈ es, e.ping? = none) :
    Stamped (es ++ trace) := by
  rw [Stamped, history_append hes]
  exact h

theorem Stamped.sent {trace : List Event} (h : Stamped trace) (stamp : Stamp) :
    Stamped (Pulse.sent stamp :: trace) := by
  intro f hf
  rw [history_cons, Pulse.ping?_sent] at hf
  rcases List.mem_append.1 hf with hf | hf
  · exact h f hf
  · exact ⟨stamp, List.mem_singleton.1 hf⟩

theorem Pulse.Beat.stamped {x y : Pulse} {elapsed : Bool} (hb : x.Beat elapsed y) (h : Stamped x.trace) :
    Stamped y.trace := by
  have hcounted : Stamped x.counted.trace := h.append [.ticked] (by simp [Event.ping?])
  cases hb with
  | still | late => exact h
  | start _ _ _ stamp => exact h.sent stamp
  | last _ _ _ hes => exact hcounted.append _ fun e he => by rw [hes e he]; rfl
  | next _ _ _ _ stamp => exact hcounted.sent stamp

namespace Session

variable {s t : Session} {settings : Settings} {kind : LinkKind} {address : Option String}
  {capacity : Option Nat} {wall : Stamp}

theorem Reachable.heard (h : Reachable (start settings kind address capacity wall) s) : s.ends.Heard := by
  induction h with
  | refl => exact ⟨(fun f hf => by cases hf), [], rfl⟩
  | move m _ hm ih => exact heard_move hm ih

theorem Reachable.stamped (h : Reachable (start settings kind address capacity wall) s) : Stamped s.trace := by
  refine h.invariant (P := fun s => Stamped s.trace) (fun f hf => by cases hf) (fun _ => id)
    (fun _ keeps (ht : Stamped _) => ?_) fun {t} fiber first hsound hplaced (ht : Stamped _) => ?_
  · obtain ⟨es, hes, htrace⟩ := keeps.trace
    rw [htrace]
    exact ht.append es fun e he => (not_paced_of_outside (hes e he)).2
  · by_cases hp : fiber = .pinger
    · subst hp
      exact (beat_pingerTurn hsound.coherent).stamped ht
    · obtain ⟨es, hes, htrace⟩ := (footprint_turn hsound.coherent hplaced fiber first).trace
      rw [htrace]
      exact ht.append es fun e he => ping?_of_does (hes e he) hp

/-- Every frame that a session queues is one that its peer accepts. -/
theorem Reachable.accepted (hrange : settings.InRange)
    (h : Reachable (start settings kind address capacity wall) s) {out : Outgoing} (hout : out ∈ s.queued) :
    out.frame.Accepted settings.maxSegment := by
  have hsound := h.sound
  have hsettings : s.settings = settings := hsound.configured
  have hfits : out.frame.Fits settings.maxSegment := by
    by_cases hping : out.frame.flag = .ping
    · have hmem : out.frame ∈ s.pings := by
        obtain ⟨e, he, hq⟩ := mem_history.1 hout
        refine mem_history.2 ⟨e, he, ?_⟩
        cases e <;> cases hq
        exact if_pos hping
      obtain ⟨stamp, hstamp⟩ := h.stamped _ hmem
      rw [hstamp]
      exact Frame.fits_stamp _ stamp
    · have hheard := h.heard.fits
      have hwithin := ((h.steps (coherent_start settings kind address capacity wall)).within
        hrange.maxSegment_le (fun f hf => ?_) fun o ho => by cases ho).1
      · have := hwithin out (Pair.view_queued s ▸ hout) hping
        rwa [show s.view.settings = settings from hsettings] at this
      · rw [Pair.view_dispatched] at hf
        have := hheard f hf
        rwa [show s.ends.maxSegment = settings.maxSegment from congrArg Settings.maxSegment hsettings] at this
  exact hfits.accepted (hsound.orderly.normal out (Pair.view_queued s ▸ hout))

theorem Reachable.not_balks (hrange : settings.InRange)
    (h : Reachable (start settings kind address capacity wall) s) : ¬ s.Balks := by
  rintro ⟨lanes, out, cause, ht, hfails⟩
  have hsound := h.sound
  have hout : out ∈ s.queued := by
    cases hc : s.closed
    · have hlane := hsound.orderly.lanes_take hc ht out.lane
      have hmem : out ∈ View.onLane out.lane s.view.queued := by
        rw [hlane]
        simp [View.onLane]
      exact Pair.view_queued s ▸ (List.mem_filter.1 hmem).1
    · have hnone : s.outbox.state.toList = [] := hsound.coherent.no_frames hc
      rw [Lanes.toList_of_take ht] at hnone
      cases hnone
  have hencode := (h.accepted hrange hout).1
  rw [show s.settings = settings from hsound.configured, hencode] at hfails
  cases hfails

end Session

/-! ### Two sessions -/

namespace Linked

variable {x y : Ends}

/-- What was written is read. -/
theorem run_ne_error (h : Linked x y) {d : Decoder} {cause : FrameError} {rest : Bytes}
    (hr : y.reader = .reading d) : d.run y.maxSegment y.arrived ≠ .error cause rest := by
  intro hd
  obtain ⟨sent, unsent, got, owed, -, -, hfit, hwire, hgot, -⟩ := h.wire (by simp [hr])
  rw [hr] at hgot
  have hrun : Decoder.run y.maxSegment .start (wires sent) = .error cause (rest ++ owed) := by
    rw [hwire, List.append_assoc, hgot.run, Decoder.run_append, hd]
  rcases sent with _ | ⟨out, sent⟩
  · cases hrun
  · obtain ⟨bytes, he⟩ := hfit out List.mem_cons_self
    rw [← h.maxSegment, run_wires_cons he] at hrun
    cases hrun

end Linked

/-- The move that one side makes. -/
def PairMove.of (side : Side) : Move → PairMove
  | .run fiber first => .run side fiber first
  | m => .onSide side m

namespace Pair

variable {p₀ p p' : Pair} {side : Side}

/-- Two sessions that have just started, each with settings of its own, but with one segment size. -/
structure Matched (changes : Side → List Settings.Change) (p : Pair) : Prop where
  sides : ∀ side, ∃ kind address capacity wall,
    p.side side = .start (.build (changes side)) kind address capacity wall
  segment : (Settings.build (changes .left)).maxSegment = (Settings.build (changes .right)).maxSegment

theorem Matched.linkedBoth {changes : Side → List Settings.Change} (h : Matched changes p) :
    p.LinkedBoth := by
  have hsegment (side : Side) : (Settings.build (changes side)).maxSegment =
      (Settings.build (changes side.other)).maxSegment := by
    cases side
    · exact h.segment
    · exact h.segment.symm
  intro side
  obtain ⟨_, _, _, _, hl⟩ := h.sides side
  obtain ⟨_, _, _, _, hr⟩ := h.sides side.other
  rw [hl, hr]
  exact ⟨hsegment side, rfl, List.prefix_refl _, fun _ => ⟨[], [], [], [], rfl, fun _ => rfl,
    (fun _ h => by cases h), rfl, rfl, rfl⟩⟩

/-- One side ends by a move of its own. -/
theorem exists_of_ended {m : PairMove} (hm : p.move? m = some p') (hopen : (p.side side).closed = false)
    (hended : (p'.side side).closed = true) :
    ∃ m' t, m = .of side m' ∧ (p.side side).move? m' = some t ∧ t.closed = true := by
  cases m with
  | onSide a m =>
    simp only [move?] at hm
    split at hm
    · rename_i hown
      obtain ⟨s, hs, rfl⟩ := Option.map_eq_some_iff.1 hm
      rcases eq_or_eq_other a side with rfl | rfl
      · rw [side_setSide] at hended
        refine ⟨m, s, ?_, hs, hended⟩
        cases m <;> first | rfl | cases hown
      · rw [side_other_setSide, hopen] at hended
        cases hended
    · cases hm
  | advance span =>
    cases hm
    have hsame : ((p.advance span).side side).closed = (p.side side).closed := by cases side <;> rfl
    rw [hsame, hopen] at hended
    cases hended
  | run a fiber first =>
    simp only [move?] at hm
    split at hm
    · rename_i hready
      cases hm
      rcases eq_or_eq_other a side with rfl | rfl
      · rw [side_run] at hended
        exact ⟨.run fiber first, _, rfl, if_pos hready, hended⟩
      · have hsame := congrArg View.closed (view_carry (p.side a) ((p.side a).takeTurn fiber first).1 (p.side a.other))
        rw [side_other_run] at hended
        exact absurd (hsame.symm.trans hended) (by simp [Session.view, hopen])
    · cases hm

/-- Every frame that a session queues can be written, and whoever reads it with the same segment size gets
it, whatever the settings and whatever the peer sends. So no session ends over a frame that it sends; and
of two sessions with one segment size neither reads anything but frames, so that neither ends over a frame
at all. -/
theorem no_frame_fault :
    (∀ changes kind address capacity wall s,
      Session.Reachable (.start (.build changes) kind address capacity wall) s →
        (∀ out ∈ s.queued, out.frame.Accepted (Settings.build changes).maxSegment) ∧ ¬ s.Balks ∧
        ∀ m t, s.closed = false → s.move? m = some t → t.closed = true →
          s.Halt m ∨ ∃ first, m = .run .reader first ∧ s.Misreads) ∧
    ∀ changes p₀ p, Matched changes p₀ → Reachable p₀ p → ∀ side,
      ¬ (p.side side).Misreads ∧
      ∀ m p', (p.side side).closed = false → p.move? m = some p' → (p'.side side).closed = true →
        ∃ m', m = .of side m' ∧ (p.side side).Halt m' := by
  have hbalks {changes kind address capacity wall s}
      (h : Session.Reachable (.start (.build changes) kind address capacity wall) s) : ¬ s.Balks :=
    h.not_balks (Settings.inRange_build changes)
  refine ⟨fun changes kind address capacity wall s h => ⟨fun out => h.accepted (Settings.inRange_build changes),
    hbalks h, fun m t hopen hm ht => ?_⟩, fun changes p₀ p h₀ hr side => ?_⟩
  · rcases Session.halt_or_fault hm hopen ht with hhalt | hfault
    · exact .inl hhalt
    · cases hfault with
      | outgoing first hb => exact absurd hb (hbalks h)
      | incoming first hmis => exact .inr ⟨first, rfl, hmis⟩
  · have hmisreads : ¬ (p.side side).Misreads := by
      rintro ⟨d, cause, rest, hreader, hd⟩
      have hlinked := (hr.linkedBoth h₀.linkedBoth) side.other
      rw [other_other] at hlinked
      exact hlinked.run_ne_error hreader hd
    refine ⟨hmisreads, fun m p' hopen hm hended => ?_⟩
    obtain ⟨m', t, rfl, ht, hclosed⟩ := exists_of_ended hm hopen hended
    refine ⟨m', rfl, ?_⟩
    obtain ⟨kind, address, capacity, wall, hstart⟩ := h₀.sides side
    have halone := hr.alone side
    rw [hstart] at halone
    rcases Session.halt_or_fault ht hopen hclosed with hhalt | hfault
    · exact hhalt
    · cases hfault with
      | outgoing first hb => exact absurd hb (hbalks halone)
      | incoming first hmis => exact absurd hmis hmisreads

/-- Segments of one byte, from two sorts of settings. -/
def tight : Side → List Settings.Change
  | .left => [.maxSegment 0]
  | .right => [.pingQueue 4, .maxSegment 1]

/-- The left side opens a connection and writes two bytes, which the right side reads. Then the left side
ends, and its writer shuts the link. -/
def partedAfterWrite : Option Pair :=
  ((⟨.start (.build (tight .left)) .tcp none none 0, .start (.build (tight .right)) .tcp none none 0⟩ : Pair).rounds
    [[(.left, .ask .openConn), (.right, .ask .accept)], [(.left, .ask (.write 0 [120, 121]))],
      [(.right, .ask (.read 0 (.bytes 2)))]]).bind fun p =>
    [PairMove.onSide .left .close, .run .left .writer true].foldlM move? p

/-- The right side ends with the left one, and not over what it read. -/
theorem right_ends_with_left : ∃ p q, partedAfterWrite = some p ∧
    p.left.queued.map (·.frame.flag) = [.ping, .newConn, .pingReturn, .newMsgPart, .newMsg] ∧
    p.right.queued.map (·.frame.flag) = [.pingReturn, .newConnOk, .ping, .msgSendOk] ∧
    (∀ out ∈ p.left.queued, out.frame.Accepted 1) ∧
    p.move? (.run .right .reader true) = some q ∧ q.right.closed = true ∧ ¬ p.right.Misreads ∧
    p.right.Halt (.run .reader true) := by
  have hplay : partedAfterWrite.any (fun p =>
      p.left.queued.map (·.frame.flag) = [.ping, .newConn, .pingReturn, .newMsgPart, .newMsg] ∧
      p.right.queued.map (·.frame.flag) = [.pingReturn, .newConnOk, .ping, .msgSendOk] ∧
      p.right.closed = false ∧
      (p.move? (.run .right .reader true)).any (·.right.closed) = true) = true := by
    decide +kernel
  obtain ⟨p, hp, h⟩ := (Option.any_eq_true _ _).1 hplay
  obtain ⟨hleft, hright, hopen, hends⟩ := of_decide_eq_true h
  obtain ⟨q, hq, hended⟩ := (Option.any_eq_true _ _).1 hends
  obtain ⟨r, hr, hmoves⟩ := Option.bind_eq_some_iff.1 hp
  have hreach := (Reachable.refl.rounds hr).moves hmoves
  have hmatched : Matched tight ⟨.start (.build (tight .left)) .tcp none none 0,
      .start (.build (tight .right)) .tcp none none 0⟩ :=
    ⟨fun side => by cases side <;> exact ⟨_, _, _, _, rfl⟩, rfl⟩
  obtain ⟨hsingle, hpair⟩ := no_frame_fault
  obtain ⟨hmisreads, hhalt⟩ := hpair tight _ p hmatched hreach .right
  obtain ⟨m, hm, hcause⟩ := hhalt _ q hopen hq hended
  obtain rfl : m = .run .reader true := by
    cases m <;> cases hm
    rfl
  exact ⟨p, q, hp, hleft, hright, (hsingle _ _ _ _ _ _ (hreach.alone .left)).1, hq, hended, hmisreads, hcause⟩

end Pair

end StreamMux
