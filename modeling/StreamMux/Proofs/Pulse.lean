import StreamMux.Proofs.Footprints

/-! The keep-alive of a session. Its counters are the intervals that went by since the last ping came
back, and since the last frame came in; an interval that brings one of them to its limit ends the session,
and every other one sends a ping. -/

namespace StreamMux

/-! ### Beats -/

namespace Event

def isReturned : Event → Bool
  | .returned _ => true
  | _ => false

def isDispatched : Event → Bool
  | .dispatched _ => true
  | _ => false

def ping? : Event → Option Frame
  | .queued out => if out.frame.flag = .ping then some out.frame else none
  | _ => none

def returned? : Event → Option Bytes
  | .returned payload => some payload
  | _ => none

/-- The event counts for the keep-alive. -/
def isBeat (e : Event) : Bool := e = .ticked ∨ e.isReturned ∨ e.isDispatched ∨ e.ping?.isSome

end Event

/-- The intervals that were over since the last event of a kind; the latest event stands first. -/
def ticksSince (reset : Event → Bool) : List Event → Nat
  | [] => 0
  | e :: trace => if reset e then 0 else ticksSince reset trace + if e = .ticked then 1 else 0

theorem ticksSince_append {reset : Event → Bool} {es : List Event}
    (hes : ∀ e ∈ es, reset e = false ∧ e ≠ .ticked) (trace : List Event) :
    ticksSince reset (es ++ trace) = ticksSince reset trace := by
  induction es with
  | nil => rfl
  | cons e es ih =>
    obtain ⟨hreset, htick⟩ := hes e List.mem_cons_self
    rw [List.cons_append, ticksSince, ih fun e he => hes e (List.mem_cons_of_mem _ he)]
    simp [hreset, htick]

/-- What the keep-alive works with. -/
structure Pulse where
  settings : Settings
  kind : LinkKind
  closed : Bool
  pinger : PingerStage
  misses : Nat
  idleTicks : Nat
  trace : List Event

namespace Session

def pulse (s : Session) : Pulse :=
  ⟨s.settings, s.kind, s.closed, s.pinger, s.misses, s.idleTicks, s.trace⟩

/-- The intervals of the pinger that were over. -/
def ticks (s : Session) : Nat := s.trace.count .ticked

/-- The pings that entered the write queue. -/
def pings (s : Session) : List Frame := history Event.ping? s.trace

/-- The payloads of the returned pings that were handled. -/
def returned (s : Session) : List Bytes := history Event.returned? s.trace

end Session

namespace Pulse

variable {x y : Pulse} {settings : Settings} {kind : LinkKind}

/-- The counters tell how many intervals went by in vain, and are short of their limits; there was a ping
at the start and one at the end of each interval. -/
structure Steady (settings : Settings) (kind : LinkKind) (x : Pulse) : Prop where
  configured : x.settings = settings
  linked : x.kind = kind
  misses : x.misses = ticksSince Event.isReturned x.trace
  idle : kind = .kcp → x.idleTicks = ticksSince Event.isDispatched x.trace
  answered : x.closed = false → x.misses < settings.pingTimeoutMisses
  busy : x.closed = false → kind = .kcp → x.idleTicks < settings.kcpIdleLimit
  pings : x.closed = false →
    (history Event.ping? x.trace).length = x.trace.count .ticked + if x.pinger = .starting then 0 else 1

/-- What is no beat leaves the pulse steady. -/
theorem Steady.rest (h : x.Steady settings kind) (es : List Event) (hes : ∀ e ∈ es, e.isBeat = false)
    (hy : y = { x with closed := y.closed, trace := es ++ x.trace }) (hc : y.closed = false → x.closed = false) :
    y.Steady settings kind := by
  have hbeat (e : Event) (he : e ∈ es) :
      e ≠ .ticked ∧ e.isReturned = false ∧ e.isDispatched = false ∧ e.ping? = none := by
    simpa [Event.isBeat] using hes e he
  have hticks : (es ++ x.trace).count .ticked = x.trace.count .ticked := by
    rw [List.count_append, List.count_eq_zero.2 fun he => (hbeat _ he).1 rfl, Nat.zero_add]
  rw [hy] at hc ⊢
  refine ⟨h.configured, h.linked, ?_, fun hk => ?_, fun ho => h.answered (hc ho), fun ho => h.busy (hc ho),
    fun ho => ?_⟩
  · dsimp only
    rw [ticksSince_append fun e he => ⟨(hbeat e he).2.1, (hbeat e he).1⟩]
    exact h.misses
  · dsimp only
    rw [ticksSince_append fun e he => ⟨(hbeat e he).2.2.1, (hbeat e he).1⟩]
    exact h.idle hk
  · dsimp only
    rw [history_append fun e he => (hbeat e he).2.2.2, hticks]
    exact h.pings (hc ho)

theorem Steady.heard (h : x.Steady settings kind) (f : Frame) :
    Steady settings kind { x with idleTicks := 0, trace := .dispatched f :: x.trace } where
  configured := h.configured
  linked := h.linked
  misses := by simpa [ticksSince, Event.isReturned] using h.misses
  idle _ := by simp [ticksSince, Event.isDispatched]
  answered := h.answered
  busy ho hk := Nat.lt_of_le_of_lt (Nat.zero_le _) (h.busy ho hk)
  pings ho := by simpa [Event.ping?] using h.pings ho

theorem Steady.returned (h : x.Steady settings kind) (payload : Bytes) :
    Steady settings kind { x with misses := 0, trace := .returned payload :: x.trace } where
  configured := h.configured
  linked := h.linked
  misses := by simp [ticksSince, Event.isReturned]
  idle hk := by simpa [ticksSince, Event.isDispatched] using h.idle hk
  answered ho := Nat.lt_of_le_of_lt (Nat.zero_le _) (h.answered ho)
  busy := h.busy
  pings ho := by simpa [Event.ping?] using h.pings ho

/-- One more interval is over. -/
def counted (x : Pulse) : Pulse :=
  { x with
    misses := x.misses + 1
    idleTicks := if x.kind = .kcp then x.idleTicks + 1 else x.idleTicks
    trace := .ticked :: x.trace }

/-- A counter has come to its limit. -/
def Dead (x : Pulse) : Prop :=
  x.settings.pingTimeoutMisses ≤ x.misses ∨ x.kind = .kcp ∧ x.settings.kcpIdleLimit ≤ x.idleTicks

/-- A ping with a reading of the wall clock, in the write queue. -/
def sent (stamp : Stamp) : Event := .queued { frame := .ping stamp.render }

/-- What a turn of the pinger does, with or without an interval that is over. -/
inductive Beat (x : Pulse) : Bool → Pulse → Prop
  | still (hp : x.pinger ≠ .starting) : Beat x false x
  | late (ended : x.closed = true) (pinger : PingerStage) : Beat x false { x with pinger }
  /-- The first ping. -/
  | start (running : x.closed = false) (hp : x.pinger = .starting) (due : Moment) (stamp : Stamp) :
      Beat x false { x with pinger := .waiting due, trace := sent stamp :: x.trace }
  /-- The interval that is one too many. -/
  | last (running : x.closed = false) (hp : x.pinger ≠ .starting) (dead : x.counted.Dead) {es : List Event}
      (hes : ∀ e ∈ es, e = .closed) :
      Beat x true { x.counted with closed := true, pinger := .over, trace := es ++ x.counted.trace }
  | next (running : x.closed = false) (hp : x.pinger ≠ .starting) (alive : ¬ x.counted.Dead) (due : Moment)
      (stamp : Stamp) :
      Beat x true { x.counted with pinger := .waiting due, trace := sent stamp :: x.counted.trace }

@[simp] theorem ping?_sent (stamp : Stamp) : (sent stamp).ping? = some (.ping stamp.render) := rfl

@[simp] theorem sent_ne_ticked (stamp : Stamp) : sent stamp ≠ .ticked := nofun

/-- The counters count. -/
theorem Steady.counted (h : x.Steady settings kind) :
    x.counted.misses = ticksSince Event.isReturned x.counted.trace ∧
      (kind = .kcp → x.counted.idleTicks = ticksSince Event.isDispatched x.counted.trace) := by
  refine ⟨?_, fun hk => ?_⟩
  · simp [Pulse.counted, ticksSince, Event.isReturned, h.misses]
  · simp [Pulse.counted, ticksSince, Event.isDispatched, h.linked, hk, h.idle hk]

theorem Beat.steady {elapsed : Bool} (hb : x.Beat elapsed y) (h : x.Steady settings kind) : y.Steady settings kind := by
  cases hb with
  | still => exact h
  | late ended =>
    exact ⟨h.configured, h.linked, h.misses, h.idle, h.answered, h.busy, fun ho => absurd (ended.symm.trans ho) (by simp)⟩
  | start running hp due stamp =>
    refine ⟨h.configured, h.linked, h.misses, h.idle, h.answered, h.busy, fun _ => ?_⟩
    have hpings := h.pings running
    simp only [hp, ↓reduceIte] at hpings
    simp [hpings]
  | @last running hp dead es hes =>
    have hended {P : Prop} : true = false → P := fun h => by cases h
    have hback (reset : Event → Bool) (hreset : reset .closed = false) :
        ticksSince reset (es ++ x.counted.trace) = ticksSince reset x.counted.trace :=
      ticksSince_append (fun e he => hes e he ▸ ⟨hreset, by simp⟩) _
    exact ⟨h.configured, h.linked, h.counted.1.trans (hback _ rfl).symm,
      fun hk => (h.counted.2 hk).trans (hback _ rfl).symm, hended, hended, hended⟩
  | next running hp alive due stamp =>
    rw [Dead, not_or, not_and, Nat.not_le, Nat.not_le] at alive
    have hsettings : x.counted.settings = settings := h.configured
    have hkind : x.counted.kind = kind := h.linked
    rw [hsettings, hkind] at alive
    refine ⟨h.configured, h.linked, h.counted.1, h.counted.2, fun _ => alive.1, fun _ => alive.2, fun _ => ?_⟩
    have hpings := h.pings running
    simp only [hp, ↓reduceIte] at hpings
    simp [Pulse.counted, hpings, show Event.ping? .ticked = none from rfl]

theorem Beat.ticks {elapsed : Bool} (hb : x.Beat elapsed y) :
    y.trace.count .ticked = x.trace.count .ticked + if elapsed then 1 else 0 := by
  cases hb with
  | still | late => rfl
  | start => simp
  | @last running hp dead es hes =>
    have hnone : es.count .ticked = 0 := List.count_eq_zero.2 fun he => by cases hes _ he
    simp [List.count_append, hnone, counted]
  | next => simp [counted]

theorem Beat.closed_iff {elapsed : Bool} (hb : x.Beat elapsed y) (hopen : x.closed = false) :
    y.closed = true ↔ elapsed = true ∧ x.counted.Dead := by
  cases hb with
  | still | start => simp [hopen]
  | late ended => simp [hopen] at ended
  | last running hp dead => simp [dead]
  | next running hp alive =>
    exact iff_of_false (fun hc => absurd (hopen.symm.trans hc) (by simp)) fun h => alive h.2

/-- A ping is sent at the start, and at the end of every interval that is not the last. -/
theorem Beat.pings {elapsed : Bool} (hb : x.Beat elapsed y) (hopen : x.closed = false) :
    ((x.pinger = .starting ∨ elapsed = true ∧ y.closed = false) ∧ ∃ stamp : Stamp,
      history Event.ping? y.trace = history Event.ping? x.trace ++ [.ping stamp.render]) ∨
    ¬ (x.pinger = .starting ∨ elapsed = true ∧ y.closed = false) ∧
      history Event.ping? y.trace = history Event.ping? x.trace := by
  have hticked : Event.ticked.ping? = none := rfl
  cases hb with
  | still hp => exact .inr ⟨by simp [hp], rfl⟩
  | late ended => simp [hopen] at ended
  | start running hp due stamp => exact .inl ⟨.inl hp, stamp, by simp⟩
  | last running hp dead hes =>
    refine .inr ⟨by simp [hp], ?_⟩
    rw [history_append fun e he => by rw [hes e he]; rfl]
    simp [counted, hticked]
  | next running hp alive due stamp =>
    exact .inl ⟨.inr ⟨rfl, hopen⟩, stamp, by simp [counted, hticked]⟩

end Pulse

namespace Session

variable {s t u : Session} {settings : Settings} {kind : LinkKind} {p : Event → Prop}

theorem pulse_post {out : Outgoing} (h : s.post out = some t) :
    t.pulse = { s.pulse with trace := .queued out :: s.trace } := by
  unfold post at h
  split at h
  · cases h
  · obtain ⟨⟨outbox, woken⟩, -, rfl⟩ := Option.map_eq_some_iff.1 h
    rfl

/-- An open session queues a ping, a closed one drops it. -/
theorem pulse_sendPing (h : s.view.Coherent) :
    s.sendPing.pulse = { s.pulse with trace := if s.closed then s.trace else Pulse.sent s.wall :: s.trace } := by
  have hco : s.readWall.1.view.Coherent := h
  unfold sendPing postOrDrop
  dsimp only
  cases hp : s.readWall.1.post { frame := .ping s.readWall.2.render } with
  | none =>
    have hclosed : s.closed = true := closed_of_post (s := s.readWall.1) hco hp
    rw [if_pos hclosed]
    rfl
  | some t =>
    have hopen : s.closed = false := (view_post hp).1
    have hpulse := pulse_post hp
    simp only [hopen, Bool.false_eq_true, ↓reduceIte]
    exact hpulse

theorem pulse_awaitTick (due : Moment) (s : Session) :
    (s.awaitTick due).pulse = { s.pulse with pinger := .waiting due } := rfl

theorem isDead_iff : s.isDead = true ↔ s.pulse.Dead := by simp [isDead, Pulse.Dead, pulse]

/-- What is kept leaves the pulse but for what was recorded and an end. -/
theorem Keeps.pulse (h : Keeps p s t) : ∃ es, (∀ e ∈ es, p e) ∧
    t.pulse = { s.pulse with closed := t.closed, trace := es ++ s.trace } := by
  obtain ⟨es, hes, htrace⟩ := h.trace
  refine ⟨es, hes, ?_⟩
  unfold Session.pulse
  rw [htrace, show t.settings = s.settings from congrArg Works.settings h.works,
    show t.kind = s.kind from congrArg Works.kind h.works,
    show t.pinger = s.pinger from congrArg Works.pinger h.works,
    show t.misses = s.misses from congrArg Works.misses h.works,
    show t.idleTicks = s.idleTicks from congrArg Works.idleTicks h.works]

theorem Keeps.steady (h : Keeps p s t) (hp : ∀ e, p e → e.isBeat = false)
    (hs : s.pulse.Steady settings kind) : t.pulse.Steady settings kind := by
  obtain ⟨es, hes, hpulse⟩ := h.pulse
  exact hs.rest es (fun e he => hp e (hes e he)) hpulse fun ho => (h.running ho).1

/-! ### Turns -/

/-- The pinger of an open session sees that its interval is over. -/
def intervalOver (s : Session) : Bool :=
  match s.pinger with
  | .waiting due => !s.closed && Timer.reached s.now due
  | _ => false

theorem beat_pingerTurn (h : s.view.Coherent) : s.pulse.Beat s.intervalOver s.pingerTurn.1.pulse := by
  unfold pingerTurn intervalOver
  rcases hp : s.pinger with _ | due | _
  · dsimp only
    rw [pulse_awaitTick, pulse_sendPing h]
    cases hc : s.closed
    · exact .start hc hp _ _
    · exact .late hc _
  · have hp : s.pulse.pinger ≠ .starting := by simp [pulse, hp]
    dsimp only
    cases hc : s.closed
    · simp only [Bool.false_eq_true, ↓reduceIte, Bool.not_false, Bool.true_and]
      cases hover : Timer.reached s.now due
      · exact .still hp
      · have hco : s.countTick.view.Coherent := by
          have hv : s.countTick.view = s.view := by
            rw [countTick, view_note]; rfl
          exact hv ▸ h
        have hcopen : s.countTick.closed = false := hc
        simp only [↓reduceIte, tick]
        split
        · rename_i hdead
          have hclose : Keeps (· = .closed) s.countTick s.countTick.close := (Keeps.refl _).close rfl
          obtain ⟨es, hes, hpulse⟩ := hclose.pulse
          have hend : s.countTick.close.endPinger.pulse = { s.countTick.close.pulse with pinger := .over } := rfl
          rw [hend, hpulse, closed_close]
          exact .last hc hp (isDead_iff.1 hdead) hes
        · rename_i halive
          have halive : ¬ s.pulse.counted.Dead := mt (isDead_iff (s := s.countTick)).2 halive
          rw [pulse_awaitTick, pulse_sendPing hco, hcopen]
          exact .next hc hp halive _ _
    · exact .late hc .over
  · exact .still fun he => by simp [pulse, hp] at he

/-- Only the pinger queues pings. -/
theorem ping?_of_does {fiber : Fiber} {e : Event} (h : fiber.Does e) (hp : fiber ≠ .pinger) : e.ping? = none := by
  unfold Fiber.Does at h
  cases e with
  | queued out =>
    have hflag : out.frame.flag ≠ .ping := by
      rintro hflag
      cases fiber <;> simp_all [Fiber.records, Fiber.queues]
    simp [Event.ping?, hflag]
  | _ => rfl

/-- Only the reader, the pinger and the loop of returned pings have to do with the keep-alive. -/
theorem isBeat_of_does {fiber : Fiber} {e : Event} (h : fiber.Does e) (hr : fiber ≠ .reader) (hp : fiber ≠ .pinger)
    (ht : fiber ≠ .returns) : e.isBeat = false := by
  have hping := ping?_of_does h hp
  unfold Fiber.Does at h
  cases e with
  | queued => simp [Event.isBeat, Event.isReturned, Event.isDispatched, hping]
  | dispatched | ticked | returned => cases fiber <;> simp_all [Fiber.records]
  | _ => rfl

theorem isBeat_of_hearing {e : Event} (h : OfHearing e) : e.isBeat = false := by
  obtain ⟨hdoes, hdispatched, -⟩ := h
  have hping := ping?_of_does hdoes (by simp)
  unfold Fiber.Does at hdoes
  cases e with
  | queued => simp [Event.isBeat, Event.isReturned, Event.isDispatched, hping]
  | dispatched => simp [Event.dispatched?] at hdispatched
  | ticked | returned => simp [Fiber.records] at hdoes
  | _ => rfl

theorem isBeat_of_outside {e : Event} (h : e.isOutside = true) : e.isBeat = false := by
  cases e with
  | queued out =>
    have hflag : out.frame.flag = .connClose := by simpa [Event.isOutside] using h
    simp [Event.isBeat, Event.isReturned, Event.isDispatched, Event.ping?, hflag]
  | arrived | closed => rfl
  | _ => cases h

/-- The other fibers leave the pulse as it is. -/
theorem Footprint.steady {fiber : Fiber} (h : Footprint fiber s t) (hr : fiber ≠ .reader) (hp : fiber ≠ .pinger)
    (ht : fiber ≠ .returns) (hs : s.pulse.Steady settings kind) : t.pulse.Steady settings kind := by
  obtain ⟨es, hes, htrace⟩ := h.trace
  refine hs.rest es (fun e he => isBeat_of_does (hes e he) hr hp ht) ?_ h.running
  unfold pulse
  rw [htrace, show t.settings = s.settings from h.works.settings, show t.kind = s.kind from h.works.kind,
    show t.pinger = s.pinger from h.works.pinger hp, show t.misses = s.misses from h.works.misses hp ht,
    show t.idleTicks = s.idleTicks from h.works.idleTicks hp hr]

theorem steady_turn (hsound : s.view.Sound settings) (hplaced : s.Placed) (h : s.pulse.Steady settings kind)
    (fiber : Fiber) (first : Bool) : (s.turn first fiber).1.pulse.Steady settings kind := by
  have hfoot := footprint_turn hsound.coherent hplaced fiber first
  cases fiber with
  | writer | acceptor | call => exact hfoot.steady (by simp) (by simp) (by simp) h
  | pinger => exact (beat_pingerTurn hsound.coherent).steady h
  | reader =>
    show (s.readerTurn first).1.pulse.Steady settings kind
    have hasked (f : Frame) : Pulse.Steady settings kind { s.pulse with
        idleTicks := 0, trace := .staged s.conns.length :: .dispatched f :: s.trace } :=
      (h.heard f).rest [.staged s.conns.length] (by simp [Event.isBeat, Event.isReturned, Event.isDispatched,
        Event.ping?]) rfl id
    cases readerTurn_cases first s with
    | quiet keeps => exact keeps.steady (by rintro _ rfl; rfl) h
    | heard f _ keeps => exact keeps.steady (fun _ => isBeat_of_hearing) (h.heard f)
    | asked f _ staged _ _ keeps => exact keeps.steady (fun _ => False.elim) (hasked f)
    | late f _ _ keeps => exact keeps.steady (fun _ => False.elim) (hasked f)
  | returns =>
    show (s.returnsTurn first).1.pulse.Steady settings kind
    rcases returnsTurn_cases first s with keeps | ⟨payload, keeps⟩
    · exact keeps.steady (fun _ => False.elim) h
    · exact keeps.steady (fun _ => False.elim) (h.returned payload)

theorem steady_start {settings : Settings} (hrange : settings.InRange) (kind : LinkKind) (address : Option String)
    (capacity : Option Nat) (wall : Stamp) :
    (start settings kind address capacity wall).pulse.Steady settings kind where
  configured := rfl
  linked := rfl
  misses := rfl
  idle _ := rfl
  answered _ := hrange.pingTimeoutMisses
  busy _ _ := hrange.kcpIdleLimit
  pings _ := rfl

theorem Reachable.steady {settings : Settings} (hrange : settings.InRange) {address : Option String}
    {capacity : Option Nat} {wall : Stamp} (h : Reachable (start settings kind address capacity wall) s) :
    s.pulse.Steady settings kind :=
  h.invariant (P := fun s => s.pulse.Steady settings kind) (steady_start hrange kind address capacity wall)
    (fun _ => id) (fun _ keeps => keeps.steady fun _ => isBeat_of_outside)
    fun fiber first hsound hplaced hs => steady_turn hsound hplaced hs fiber first

/-! ### Moves -/

/-- One more interval brings a counter to its limit. -/
def LastTick (settings : Settings) (kind : LinkKind) (s : Session) : Prop :=
  s.misses + 1 = settings.pingTimeoutMisses ∨ kind = .kcp ∧ s.idleTicks + 1 = settings.kcpIdleLimit

/-- What a move of an open session means for the keep-alive. -/
structure Paced (settings : Settings) (kind : LinkKind) (m : Move) (s t : Session) : Prop where
  /-- At most one interval is over, and only the pinger sees that. -/
  ticks : t.ticks = s.ticks ∨ t.ticks = s.ticks + 1 ∧ ∃ first, m = .run .pinger first
  due : ∀ first due, m = .run .pinger first → s.pinger = .waiting due → Timer.reached s.now due = true →
    t.ticks = s.ticks + 1
  /-- An interval ends the session exactly when it brings a counter to its limit. -/
  last : t.ticks = s.ticks + 1 → (t.closed = true ↔ s.LastTick settings kind)
  /-- Every other interval queues one ping, and so does the start. -/
  ping : t.ticks = s.ticks + 1 → t.closed = false → ∃ stamp : Stamp, t.pings = s.pings ++ [.ping stamp.render]
  start : ∀ first, m = .run .pinger first → s.pinger = .starting →
    ∃ stamp : Stamp, t.pings = s.pings ++ [.ping stamp.render]
  silent : t.ticks = s.ticks → (∀ first, m = .run .pinger first → s.pinger ≠ .starting) → t.pings = s.pings
  /-- Without an interval the pinger ends nothing, and over TCP only missed pings count. -/
  patient : ∀ first, m = .run .pinger first → t.ticks = s.ticks → t.closed = false
  tcp : ∀ first, m = .run .pinger first → kind = .tcp → s.misses + 1 < settings.pingTimeoutMisses →
    t.closed = false
  /-- A returned ping is handled whatever it carries, and then no ping is missed. -/
  handled : ∀ first payload rest, m = .run .returns first → s.returns = .waiting → s.pongs = payload :: rest →
    t.returned = s.returned ++ [payload]
  returned : ∀ payload, t.returned = s.returned ++ [payload] → t.misses = 0
  /-- Any frame breaks the silence. -/
  heard : ∀ first d f rest, m = .run .reader first → s.reader = .reading d →
    d.run s.settings.maxSegment s.inlet.bytes = .frame f rest → t.idleTicks = 0

/-- What is recorded apart from the pinger is no interval and no ping. -/
theorem not_paced_of_does {fiber : Fiber} {e : Event} (h : fiber.Does e) (hp : fiber ≠ .pinger) :
    e ≠ .ticked ∧ e.ping? = none := by
  refine ⟨?_, ping?_of_does h hp⟩
  rintro rfl
  unfold Fiber.Does at h
  cases fiber <;> simp_all [Fiber.records]

theorem not_paced_of_outside {e : Event} (h : e.isOutside = true) : e ≠ .ticked ∧ e.ping? = none := by
  have hbeat := isBeat_of_outside h
  simp only [Event.isBeat, decide_eq_false_iff_not, not_or] at hbeat
  exact ⟨hbeat.1, by simpa using hbeat.2.2.2⟩

theorem returned?_of_does {fiber : Fiber} {e : Event} (h : fiber.Does e) (hr : fiber ≠ .returns) :
    e.returned? = none := by
  unfold Fiber.Does at h
  cases e with
  | returned => cases fiber <;> simp_all [Fiber.records]
  | _ => rfl

theorem lastTick_iff (h : s.pulse.Steady settings kind) (hopen : s.closed = false) :
    s.pulse.counted.Dead ↔ s.LastTick settings kind := by
  have hmisses : s.misses < settings.pingTimeoutMisses := h.answered hopen
  have hkind : s.kind = kind := h.linked
  have hdead : s.pulse.counted.Dead ↔ settings.pingTimeoutMisses ≤ s.misses + 1 ∨ kind = .kcp ∧
      settings.kcpIdleLimit ≤ (if kind = .kcp then s.idleTicks + 1 else s.idleTicks) := by
    rw [← hkind, ← h.configured]
    rfl
  rw [hdead, LastTick]
  refine or_congr (by omega) (and_congr_right fun hk => ?_)
  have hidle : s.idleTicks < settings.kcpIdleLimit := h.busy hopen hk
  rw [if_pos hk]
  omega

theorem paced_pinger (h : s.pulse.Steady settings kind) (hopen : s.closed = false) {first : Bool}
    (hb : s.pulse.Beat s.intervalOver t.pulse) (hreturned : t.returned = s.returned) :
    Paced settings kind (.run .pinger first) s t := by
  have hticks : t.ticks = s.ticks + if s.intervalOver then 1 else 0 := hb.ticks
  have hover : t.ticks = s.ticks + 1 ↔ s.intervalOver = true := by
    rw [hticks]; cases s.intervalOver <;> simp
  have hclosed : t.closed = true ↔ s.intervalOver = true ∧ s.LastTick settings kind :=
    (hb.closed_iff hopen).trans (and_congr_right fun _ => lastTick_iff h hopen)
  have hpings : (s.pinger = .starting ∨ s.intervalOver = true ∧ t.closed = false) ∧
      (∃ stamp : Stamp, t.pings = s.pings ++ [.ping stamp.render]) ∨
      ¬ (s.pinger = .starting ∨ s.intervalOver = true ∧ t.closed = false) ∧ t.pings = s.pings := hb.pings hopen
  refine
    { ticks := ?_, due := fun _ due _ hp hdue => ?_, last := fun ht => ?_, ping := fun ht ho => ?_,
      start := fun _ _ hp => ?_, silent := fun ht hp => ?_, patient := fun _ _ ht => ?_,
      tcp := fun _ _ hk hm => ?_, handled := fun _ _ _ he => by simp at he, returned := fun payload hp => ?_,
      heard := fun _ _ _ _ he => by simp at he }
  · rw [hticks]
    cases s.intervalOver
    · exact .inl rfl
    · exact .inr ⟨rfl, first, rfl⟩
  · exact hover.2 (by simp [intervalOver, hp, hopen, hdue])
  · rw [hclosed, and_iff_right (hover.1 ht)]
  · rcases hpings with ⟨-, hsent⟩ | ⟨hnot, -⟩
    · exact hsent
    · exact absurd (.inr ⟨hover.1 ht, ho⟩) hnot
  · rcases hpings with ⟨-, hsent⟩ | ⟨hnot, -⟩
    · exact hsent
    · exact absurd (.inl hp) hnot
  · rcases hpings with ⟨hstart | ⟨ho, -⟩, -⟩ | ⟨-, hsame⟩
    · exact absurd hstart (hp first rfl)
    · have := hover.2 ho
      omega
    · exact hsame
  · rw [Bool.eq_false_iff]
    intro hc
    have := hover.2 (hclosed.1 hc).1
    omega
  · rw [Bool.eq_false_iff]
    intro hc
    rcases (hclosed.1 hc).2 with hlast | ⟨hkcp, -⟩
    · omega
    · exact absurd (hk.symm.trans hkcp) (by simp)
  · rw [hreturned] at hp
    simpa using congrArg List.length hp

/-- A move that is no turn of the pinger has no part in the intervals and the pings. -/
theorem paced_apart {m : Move} (hm : ∀ first, m ≠ .run .pinger first) {es : List Event}
    (hes : ∀ e ∈ es, e ≠ .ticked ∧ e.ping? = none) (htrace : t.trace = es ++ s.trace)
    (handled : ∀ first payload rest, m = .run .returns first → s.returns = .waiting → s.pongs = payload :: rest →
      t.returned = s.returned ++ [payload])
    (returned : ∀ payload, t.returned = s.returned ++ [payload] → t.misses = 0)
    (heard : ∀ first d f rest, m = .run .reader first → s.reader = .reading d →
      d.run s.settings.maxSegment s.inlet.bytes = .frame f rest → t.idleTicks = 0) :
    Paced settings kind m s t := by
  have hticks : t.ticks = s.ticks := by
    rw [ticks, htrace, List.count_append, List.count_eq_zero.2 fun he => (hes _ he).1 rfl, Nat.zero_add]
    rfl
  have hpings : t.pings = s.pings := by
    rw [pings, htrace, history_append fun e he => (hes e he).2]
    rfl
  have hno {P : Prop} (ht : t.ticks = s.ticks + 1) : P := by omega
  exact
    { ticks := .inl hticks, due := fun first _ he => absurd he (hm first), last := hno, ping := hno,
      start := fun first he => absurd he (hm first), silent := fun _ _ => hpings,
      patient := fun first he => absurd he (hm first), tcp := fun first he => absurd he (hm first),
      handled, returned, heard }

theorem returned_eq {es : List Event} (hes : ∀ e ∈ es, e.returned? = none) (htrace : t.trace = es ++ s.trace) :
    t.returned = s.returned := by
  rw [returned, htrace, history_append hes]
  rfl

theorem ne_append_of_returned (h : t.returned = s.returned) (payload : Bytes) :
    t.returned ≠ s.returned ++ [payload] := by simp [h]

/-- In an open session a returned ping is handled at the next turn. -/
theorem handled_returnsTurn (hopen : s.closed = false) (first : Bool) :
    (∀ payload rest, s.returns = .waiting → s.pongs = payload :: rest →
      (s.returnsTurn first).1.returned = s.returned ++ [payload]) ∧
    ∀ payload, (s.returnsTurn first).1.returned = s.returned ++ [payload] → (s.returnsTurn first).1.misses = 0 := by
  refine ⟨fun payload rest hr hp => ?_, fun payload hr => ?_⟩
  · have hturn : (s.returnsTurn first).1 = s.handlePong payload rest := by
      simp [returnsTurn, hr, hopen, hp]
    obtain ⟨es, hes, htrace⟩ := (keeps_handlePong payload rest s).trace
    rw [hturn, returned_eq (fun e he => (hes e he).elim) htrace]
    simp [returned, note, Event.returned?]
  · rcases returnsTurn_cases first s with keeps | ⟨_, keeps⟩
    · obtain ⟨es, hes, htrace⟩ := keeps.trace
      exact absurd hr (ne_append_of_returned (returned_eq (fun e he => (hes e he).elim) htrace) payload)
    · exact congrArg Works.misses keeps.works

/-- A frame that has come in ends the silence. -/
theorem idleTicks_readerTurn (hopen : s.closed = false) (first : Bool) {d : Decoder} {f : Frame} {rest : Bytes}
    (hr : s.reader = .reading d) (hd : d.run s.settings.maxSegment s.inlet.bytes = .frame f rest) :
    (s.readerTurn first).1.idleTicks = 0 := by
  have hturn : (s.readerTurn first).1 = ({ s with inlet := { s.inlet with bytes := rest } } : Session).receive f := by
    simp [readerTurn, hr, hopen, readSome, hd]
  have hdispatched : (s.readerTurn first).1.dispatched = s.dispatched ++ [f] := by
    obtain ⟨reader, -, hends⟩ := ends_dispatch f { s with
      inlet := { s.inlet with bytes := rest }, throughput := s.throughput.add f.bytes.length, idleTicks := 0 }
    rw [hturn]
    exact congrArg Ends.dispatched hends
  cases readerTurn_cases first s with
  | quiet keeps =>
    obtain ⟨es, hes, htrace⟩ := keeps.trace
    rw [dispatched, htrace, history_append fun e he => by rw [hes e he]; rfl] at hdispatched
    have := congrArg List.length hdispatched
    simp [dispatched] at this
  | heard _ _ keeps | asked _ _ _ _ _ keeps | late _ _ _ keeps => exact congrArg Works.idleTicks keeps.works

theorem paced_move (hsound : s.view.Sound settings) (hplaced : s.Placed) (h : s.pulse.Steady settings kind)
    (hopen : s.closed = false) {m : Move} (hm : s.move? m = some t) : Paced settings kind m s t := by
  rcases move_cases hm with ⟨fiber, first, ready, ready', rfl, rfl⟩ | ⟨hnot, more, -, keeps⟩
  · let s₀ : Session := { s with ready }
    have hplaced₀ : s₀.Placed := hplaced
    obtain ⟨es, hes, htrace⟩ := (footprint_turn (s := s₀) hsound.coherent hplaced₀ fiber first).trace
    have hsame (hr : fiber ≠ .returns) :
        ({ (s₀.turn first fiber).1 with ready := ready' } : Session).returned = s.returned :=
      returned_eq (fun e he => returned?_of_does (hes e he) hr) htrace
    by_cases hp : fiber = .pinger
    · subst hp
      exact paced_pinger h hopen (beat_pingerTurn (s := s₀) hsound.coherent) (hsame (by simp))
    · refine paced_apart (fun _ he => hp (by cases he; rfl)) (fun e he => not_paced_of_does (hes e he) hp) htrace
        (fun _ payload rest he hr hq => ?_) (fun payload hr => ?_) (fun _ d f rest he hr hd => ?_)
      · cases he
        exact (handled_returnsTurn (s := s₀) hopen first).1 payload rest hr hq
      · by_cases hf : fiber = .returns
        · subst hf
          exact (handled_returnsTurn (s := s₀) hopen first).2 payload hr
        · exact absurd hr (ne_append_of_returned (hsame hf) payload)
      · cases he
        exact idleTicks_readerTurn (s := s₀) hopen first hr hd
  · obtain ⟨es, hes, htrace⟩ := keeps.trace
    have hreturned : t.returned = s.returned :=
      returned_eq (fun e he => by cases e <;> first | rfl | cases hes _ he) htrace
    exact paced_apart (fun first => hnot _ first) (fun e he => not_paced_of_outside (hes e he)) htrace
      (fun first _ _ he => absurd he (hnot _ first))
      (fun payload hr => absurd hr (ne_append_of_returned hreturned payload))
      (fun first _ _ _ he => absurd he (hnot _ first))

/-! ### The policy -/

/-- As long as a session is open, its counters tell the intervals since the last returned ping and, over
KCP, since the last frame, and stay short of their limits; every interval was followed by a ping, and the
start by one more. Each move does what the policy says. -/
theorem keep_alive_policy (changes : List Settings.Change) {kind : LinkKind} {address : Option String}
    {capacity : Option Nat} {wall : Stamp}
    (h : Reachable (start (.build changes) kind address capacity wall) s) (hopen : s.closed = false) :
    s.misses = ticksSince Event.isReturned s.trace ∧
    s.misses < (Settings.build changes).pingTimeoutMisses ∧
    (kind = .kcp → s.idleTicks = ticksSince Event.isDispatched s.trace ∧
      s.idleTicks < (Settings.build changes).kcpIdleLimit) ∧
    s.pings.length = s.ticks + (if s.pinger = .starting then 0 else 1) ∧
    ∀ m t, s.move? m = some t → Paced (.build changes) kind m s t := by
  have hsteady := h.steady (Settings.inRange_build changes)
  refine ⟨hsteady.misses, hsteady.answered hopen, fun hk => ⟨hsteady.idle hk, hsteady.busy hopen hk⟩,
    hsteady.pings hopen, fun m t hm => ?_⟩
  exact paced_move h.sound h.placed hsteady hopen hm

/-- A ping with an unreadable stamp comes back between the first interval and the second. -/
def silentPeer : List Move :=
  [.run .pinger true, .advance (.ofSeconds 5 0), .run .pinger true, .run .reader true,
    .deliver [8, 255, 255, 255, 255, 1, 0, 120], .run .reader true, .run .reader true, .run .returns true,
    .advance (.ofSeconds 5 0), .run .pinger true, .advance (.ofSeconds 5 0)]

/-- The third interval is the second silent one, and ends the session. -/
theorem silent_peer_ends_session :
    ∃ s t, Reachable (start (.build [.pingTimeoutMisses 3, .kcpIdleLimit 2]) .kcp none none 0) s ∧
      Stamp.parse? [120] = none ∧ s.returned = [[120]] ∧ s.ticks = 2 ∧ s.misses = 1 ∧ s.pings.length = 3 ∧
      s.move? (.run .pinger true) = some t ∧ t.closed = true := by
  have hplay : ((start (.build [.pingTimeoutMisses 3, .kcpIdleLimit 2]) .kcp none none 0).playCalm
      silentPeer).any (fun s => s.closed = false ∧ s.returned = [[120]] ∧ s.ticks = 2 ∧ s.misses = 1 ∧
        s.idleTicks = 1 ∧ s.pinger = .waiting 15000000000 ∧ Timer.reached s.now 15000000000 = true ∧
        Fiber.pinger ∈ s.ready) = true := by
    decide +kernel
  obtain ⟨s, hs, hend⟩ := (Option.any_eq_true _ _).1 hplay
  obtain ⟨hopen, hreturned, hticks, hmisses, hidle, hpinger, hdue, hready⟩ := of_decide_eq_true hend
  have hreach := (undisturbed_of_playCalm .refl hs).reachable
  have hmove : s.move? (.run .pinger true) = some (s.run .pinger true) := if_pos hready
  obtain ⟨-, -, -, hpings, hpaced⟩ := keep_alive_policy _ hreach hopen
  have hmove' := hpaced _ _ hmove
  have hlast : s.LastTick (.build [.pingTimeoutMisses 3, .kcpIdleLimit 2]) .kcp :=
    .inr ⟨rfl, by rw [hidle]; decide⟩
  have hunreadable : Stamp.parse? [120] = none := rfl
  have hlength : s.pings.length = 3 := by
    rw [hpings, hticks, hpinger]
    rfl
  have hended : (s.run .pinger true).closed = true :=
    (hmove'.last (hmove'.due true _ rfl hpinger hdue)).2 hlast
  exact ⟨s, _, hreach, hunreadable, hreturned, hticks, hmisses, hlength, hmove, hended⟩

end Session

end StreamMux
