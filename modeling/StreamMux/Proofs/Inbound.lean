import StreamMux.Proofs.Footprints
import StreamMux.Proofs.Counterparts

/-! The connections that the peer asks for. They are decided in the order in which their requests came
in; each of them is refused, or registered, made ready for the calls that accept, and confirmed, in this
order. What was made ready has been given to a call or waits for one. -/

namespace StreamMux

namespace Event

def decided? : Event → Option (Nat × Bool)
  | .decided n accepted => some (n, accepted)
  | _ => none

def published? : Event → Option Nat
  | .published n => some n
  | _ => none

/-- The peer is told what became of its request. -/
def answer? : Event → Option (Nat × Bool)
  | .queued out =>
    if out.frame.flag = .newConnOk then out.conn.map (·, true)
    else if out.frame.flag = .newConnFail then out.conn.map (·, false)
    else none
  | _ => none

/-- An accept was given a connection; `requests` tells what the calls ask for. -/
def accepted? (requests : List Request) : Event → Option Nat
  | .finished k (.conn n) => if requests[k]? = some .accept then some n else none
  | _ => none

/-- The event has no part in what becomes of the peer's requests. -/
structure Aside (requests : List Request) (e : Event) : Prop where
  staged : e.staged? = none
  decided : e.decided? = none
  published : e.published? = none
  answer : e.answer? = none
  accepted : e.accepted? requests = none
  asked : ∀ k n, e = .finished k (.conn n) → k < requests.length

end Event

/-- The connections that were decided on and not refused. -/
def admitted (handled : List (Nat × Bool)) : List Nat := (handled.filter (·.2)).map (·.1)

theorem admitted_append (handled more : List (Nat × Bool)) :
    admitted (handled ++ more) = admitted handled ++ admitted more := by
  rw [admitted, List.filter_append, List.map_append, admitted, admitted]

/-- Whatever was confirmed to the peer had been registered and made ready before; the latest event stands
first. -/
def ConfirmedLast : List Event → Prop
  | [] => True
  | e :: trace => ConfirmedLast trace ∧ ∀ n, e.answer? = some (n, true) → .registered n ∈ trace ∧ .published n ∈ trace

theorem ConfirmedLast.append {trace : List Event} (h : ConfirmedLast trace) (es : List Event)
    (hes : ∀ e ∈ es, e.answer? = none) : ConfirmedLast (es ++ trace) := by
  induction es with
  | nil => exact h
  | cons e es ih =>
    refine ⟨ih fun e he => hes e (List.mem_cons_of_mem _ he), fun n hn => ?_⟩
    rw [hes e List.mem_cons_self] at hn
    cases hn

namespace Event

variable {requests : List Request} {e : Event}

theorem aside_closed : Aside requests .closed := ⟨rfl, rfl, rfl, rfl, rfl, nofun⟩

/-- Only the reader, the acceptor and the calls that are given a connection have a part in the requests. -/
theorem aside_of_does {fiber : Fiber} (h : fiber.Does e) (ha : fiber ≠ .acceptor)
    (hr : fiber = .reader → e.staged? = none) (hc : ∀ k, fiber = .call k → e.isBare = true) :
    e.Aside requests := by
  have hnever {e : Event} (hne : ∀ k n, e ≠ .finished k (.conn n)) (k n : Nat)
      (he : e = .finished k (.conn n)) : k < requests.length := absurd he (hne k n)
  unfold Fiber.Does at h
  cases e with
  | queued out =>
    have hflag : out.frame.flag ≠ .newConnOk ∧ out.frame.flag ≠ .newConnFail := by
      constructor <;> rintro hflag <;> cases fiber <;> simp_all [Fiber.records, Fiber.queues]
    exact ⟨rfl, rfl, rfl, by simp [answer?, hflag], rfl, hnever (by simp)⟩
  | staged n =>
    have hreader : fiber = .reader := by cases fiber <;> simp_all [Fiber.records]
    cases hr hreader
  | decided | published => cases fiber <;> simp_all [Fiber.records]
  | finished k outcome =>
    obtain rfl : fiber = .call k := by cases fiber <;> simp_all [Fiber.records]
    have hbare := hc k rfl
    cases outcome with
    | conn n => cases hbare
    | taken | written | failed => exact ⟨rfl, rfl, rfl, rfl, rfl, hnever (by simp)⟩
  | _ => exact ⟨rfl, rfl, rfl, rfl, rfl, hnever (by simp)⟩

theorem aside_of_outside (h : e.isOutside = true) : e.Aside requests := by
  cases e with
  | queued out =>
    have hflag : out.frame.flag = .connClose := by simpa [isOutside] using h
    exact ⟨rfl, rfl, rfl, by simp [answer?, hflag], rfl, nofun⟩
  | arrived | closed => exact ⟨rfl, rfl, rfl, rfl, rfl, nofun⟩
  | _ => cases h

end Event

namespace Session

/-- The connections that were decided on, each with whether it was registered. -/
def handled (s : Session) : List (Nat × Bool) := history Event.decided? s.trace

/-- What the peer was told of them. -/
def answers (s : Session) : List (Nat × Bool) := history Event.answer? s.trace

/-- The connections that were made ready for the calls that accept. -/
def publications (s : Session) : List Nat := history Event.published? s.trace

/-- The connections that accepts were given, in the order in which they ended. -/
def acceptances (s : Session) : List Nat := history (Event.accepted? (s.calls.map Call.request)) s.trace

/-- What has become of the requests of the peer. -/
structure Receives (s : Session) : Prop where
  decided : ∃ rest, s.askedFor = s.handled.map (·.1) ++ rest ∧ (s.closed = false → rest = s.staged.state.toList)
  answered : ∃ rest, s.handled = s.answers ++ rest ∧
    (s.acceptor ≠ .over → rest = s.acceptor.publishing?.toList.map (·, true))
  published : ∃ rest, admitted s.handled = s.publications ++ rest ∧
    (s.acceptor ≠ .over → rest = s.acceptor.publishing?.toList)
  /-- What was made ready has been given to an accept, or waits for one. -/
  given : s.publications = s.acceptances ++ s.published
  room : s.published.length ≤ s.settings.backlog
  running : s.closed = false → s.acceptor ≠ .over
  asked : ∀ k n, .finished k (.conn n) ∈ s.trace → k < s.calls.length
  registered : ∀ n ∈ s.acceptor.publishing?.toList, .registered n ∈ s.trace
  confirmed : ConfirmedLast s.trace

namespace Receives

variable {s t : Session} {n k : Nat} {p : Event → Prop}

/-- What has no part in the requests changes nothing about them. -/
theorem aside (h : s.Receives) (es : List Event) (hes : ∀ e ∈ es, e.Aside (s.calls.map Call.request))
    (htrace : t.trace = es ++ s.trace) (hsettings : t.settings = s.settings) (hacceptor : t.acceptor = s.acceptor)
    (hpublished : t.published = s.published) (hrequests : t.calls.map Call.request = s.calls.map Call.request)
    (hrunning : t.closed = false → s.closed = false ∧ t.staged.state = s.staged.state) : t.Receives := by
  have hasked : t.askedFor = s.askedFor := by
    rw [askedFor, htrace, history_append fun e he => (hes e he).staged, askedFor]
  have hhandled : t.handled = s.handled := by
    rw [handled, htrace, history_append fun e he => (hes e he).decided, handled]
  have hanswers : t.answers = s.answers := by
    rw [answers, htrace, history_append fun e he => (hes e he).answer, answers]
  have hpublications : t.publications = s.publications := by
    rw [publications, htrace, history_append fun e he => (hes e he).published, publications]
  have hacceptances : t.acceptances = s.acceptances := by
    rw [acceptances, hrequests, htrace, history_append fun e he => (hes e he).accepted, acceptances]
  have hlength : t.calls.length = s.calls.length := by simpa using congrArg List.length hrequests
  refine ⟨?_, ?_, ?_, ?_, ?_, ?_, ?_, ?_, ?_⟩
  · obtain ⟨rest, hq, hr⟩ := h.decided
    refine ⟨rest, by rw [hasked, hhandled, hq], fun ho => ?_⟩
    rw [(hrunning ho).2, hr (hrunning ho).1]
  · rw [hhandled, hanswers, hacceptor]
    exact h.answered
  · rw [hhandled, hpublications, hacceptor]
    exact h.published
  · rw [hpublications, hacceptances, hpublished]
    exact h.given
  · rw [hpublished, hsettings]
    exact h.room
  · rw [hacceptor]
    exact fun ho => h.running (hrunning ho).1
  · intro k n hmem
    rw [htrace, List.mem_append] at hmem
    rcases hmem with hmem | hmem
    · rw [hlength]
      simpa using (hes _ hmem).asked k n rfl
    · exact hlength ▸ h.asked k n hmem
  · intro n hn
    rw [htrace]
    exact List.mem_append_right _ (h.registered n (hacceptor ▸ hn))
  · rw [htrace]
    exact h.confirmed.append es fun e he => (hes e he).answer

theorem keeps (h : s.Receives) (keeps : Keeps p s t) (hp : ∀ e, p e → e.Aside (s.calls.map Call.request)) :
    t.Receives := by
  obtain ⟨es, hes, htrace⟩ := keeps.trace
  exact h.aside es (fun e he => hp e (hes e he)) htrace (congrArg Works.settings keeps.works)
    (congrArg Works.acceptor keeps.works) (congrArg Works.published keeps.works)
    (congrArg Works.requests keeps.works) keeps.running

/-! ### The reader -/

/-- A request comes in. The connection made for it is the last that is staged. -/
theorem stage (h : s.Receives) (staged : Queue Fiber Nat)
    (hstaged : s.closed = false → staged.state.toList = s.staged.state.toList ++ [n]) :
    (({ s with staged } : Session).note (.staged n)).Receives where
  decided := by
    obtain ⟨rest, hq, hr⟩ := h.decided
    have hasked : (({ s with staged } : Session).note (.staged n)).askedFor = s.askedFor ++ [n] := by
      simp [askedFor, note, Event.staged?]
    refine ⟨rest ++ [n], by rw [hasked, hq, List.append_assoc]; rfl, fun ho => ?_⟩
    rw [hr ho]
    exact (hstaged ho).symm
  answered := h.answered
  published := h.published
  given := h.given
  room := h.room
  running := h.running
  asked k m hmem := h.asked k m (by simpa [note] using hmem)
  registered m hm := List.mem_cons_of_mem _ (h.registered m hm)
  confirmed := h.confirmed.append [.staged n] (by simp [Event.answer?])

/-! ### The acceptor -/

/-- The first of the staged connections is registered. -/
theorem enter (h : s.Receives) (idle : s.acceptor = .idle) (running : s.closed = false) {staged : Queue Fiber Nat}
    (hstaged : s.staged.state.toList = n :: staged.state.toList) :
    ((({ s with acceptor := .publishing n, staged } : Session).note (.registered n)).note
      (.decided n true)).Receives := by
  have hne : s.acceptor ≠ .over := by simp [idle]
  have hhandled : ((({ s with acceptor := .publishing n, staged } : Session).note (.registered n)).note
      (.decided n true)).handled = s.handled ++ [(n, true)] := by
    simp [handled, note, Event.decided?]
  refine ⟨?_, ?_, ?_, h.given, h.room, fun _ => by simp [note], fun k m hmem => ?_, fun m hm => ?_, ?_⟩
  · obtain ⟨rest, hq, hr⟩ := h.decided
    refine ⟨staged.state.toList, ?_, fun _ => rfl⟩
    rw [hhandled, List.map_append, List.append_assoc]
    exact hq.trans (by rw [hr running, hstaged]; rfl)
  · obtain ⟨rest, hq, hr⟩ := h.answered
    refine ⟨[(n, true)], ?_, fun _ => rfl⟩
    rw [hhandled, hq, hr hne, idle]
    simp [AcceptorStage.publishing?, answers, note, Event.answer?]
  · obtain ⟨rest, hq, hr⟩ := h.published
    refine ⟨[n], ?_, fun _ => rfl⟩
    rw [hhandled, admitted_append, hq, hr hne, idle]
    simp [AcceptorStage.publishing?, publications, note, Event.published?, admitted]
  · exact h.asked k m (by simpa [note] using hmem)
  · rw [List.mem_singleton.1 hm]
    simp [note]
  · exact h.confirmed.append [.decided n true, .registered n] (by simp [Event.answer?])

/-- The first of the staged connections is refused. -/
theorem turnAway (h : s.Receives) (idle : s.acceptor = .idle) (running : s.closed = false) {staged : Queue Fiber Nat}
    (hstaged : s.staged.state.toList = n :: staged.state.toList) (id : Int32) :
    ((({ s with staged } : Session).note (.decided n false)).note
      (.queued { frame := .control .newConnFail id, conn := n })).Receives := by
  have hne : s.acceptor ≠ .over := by simp [idle]
  have hhandled : ((({ s with staged } : Session).note (.decided n false)).note
      (.queued { frame := .control .newConnFail id, conn := n })).handled = s.handled ++ [(n, false)] := by
    simp [handled, note, Event.decided?]
  refine ⟨?_, ?_, ?_, h.given, h.room, h.running, fun k m hmem => ?_, fun m hm => ?_, ?_⟩
  · obtain ⟨rest, hq, hr⟩ := h.decided
    refine ⟨staged.state.toList, ?_, fun _ => rfl⟩
    rw [hhandled, List.map_append, List.append_assoc]
    exact hq.trans (by rw [hr running, hstaged]; rfl)
  · obtain ⟨rest, hq, hr⟩ := h.answered
    refine ⟨[], ?_, fun _ => by simp [note, idle, AcceptorStage.publishing?]⟩
    rw [hhandled, hq, hr hne, idle]
    simp [AcceptorStage.publishing?, answers, note, Event.answer?, Frame.control]
  · obtain ⟨rest, hq, hr⟩ := h.published
    refine ⟨rest, ?_, hr⟩
    rw [hhandled, admitted_append, hq]
    simp [publications, note, Event.published?, admitted]
  · exact h.asked k m (by simpa [note] using hmem)
  · exact List.mem_cons_of_mem _ (List.mem_cons_of_mem _ (h.registered m hm))
  · refine ⟨h.confirmed.append [.decided n false] (by simp [Event.answer?]), fun m hm => ?_⟩
    simp [Event.answer?, Frame.control] at hm

/-- The connection that the acceptor has registered is the next to be made ready. -/
theorem next_published (h : s.Receives) (publishing : s.acceptor = .publishing n) :
    admitted s.handled = s.publications ++ [n] ∧
      s.publications ++ [n] = s.acceptances ++ (s.published ++ [n]) := by
  obtain ⟨rest, hq, hr⟩ := h.published
  rw [hq, hr (by simp [publishing]), publishing, ← List.append_assoc, ← h.given]
  exact ⟨rfl, rfl⟩

/-- The registered connection is made ready and confirmed. -/
theorem publish (h : s.Receives) (publishing : s.acceptor = .publishing n)
    (room : s.published.length < s.settings.backlog) (id : Int32) :
    ((({ s with acceptor := .idle, published := s.published ++ [n] } : Session).note (.published n)).note
      (.queued { frame := .control .newConnOk id, conn := n })).Receives := by
  have hne : s.acceptor ≠ .over := by simp [publishing]
  obtain ⟨hadmitted, hgiven⟩ := h.next_published publishing
  have hpublications : ((({ s with acceptor := .idle, published := s.published ++ [n] } : Session).note
      (.published n)).note (.queued { frame := .control .newConnOk id, conn := n })).publications =
        s.publications ++ [n] := by
    simp [publications, note, Event.published?]
  refine ⟨h.decided, ?_, ⟨[], ?_, fun _ => rfl⟩, ?_, ?_, fun _ => by simp [note], fun k m hmem => ?_,
    fun m hm => absurd hm List.not_mem_nil, ?_⟩
  · obtain ⟨rest, hq, hr⟩ := h.answered
    refine ⟨[], ?_, fun _ => rfl⟩
    refine hq.trans ?_
    rw [hr hne, publishing]
    simp [AcceptorStage.publishing?, answers, note, Event.answer?, Frame.control]
  · rw [hpublications, List.append_nil]
    exact hadmitted
  · rw [hpublications]
    exact hgiven
  · show (s.published ++ [n]).length ≤ s.settings.backlog
    rw [List.length_append]
    exact room
  · exact h.asked k m (by simpa [note] using hmem)
  · refine ⟨h.confirmed.append [.published n] (by simp [Event.answer?]), fun m hm => ?_⟩
    obtain rfl : n = m := by simpa [Event.answer?, Frame.control] using hm
    exact ⟨List.mem_cons_of_mem _ (h.registered n (by simp [publishing, AcceptorStage.publishing?])),
      List.mem_cons_self⟩

/-- It is made ready too late to be confirmed. -/
theorem publishLate (h : s.Receives) (publishing : s.acceptor = .publishing n)
    (room : s.published.length < s.settings.backlog) (ended : s.closed = true)
    (staged : Queue Fiber Nat) :
    (({ s with acceptor := .over, published := s.published ++ [n], staged } : Session).note
      (.published n)).Receives := by
  have hended {P : Prop} (ho : s.closed = false) : P := by simp [ended] at ho
  obtain ⟨hadmitted, hgiven⟩ := h.next_published publishing
  have hpublications : (({ s with acceptor := .over, published := s.published ++ [n], staged } : Session).note
      (.published n)).publications = s.publications ++ [n] := by
    simp [publications, note, Event.published?]
  refine ⟨?_, ?_, ⟨[], ?_, fun _ => rfl⟩, ?_, ?_, hended, fun k m hmem => ?_,
    fun m hm => absurd hm List.not_mem_nil, ?_⟩
  · obtain ⟨rest, hq, -⟩ := h.decided
    exact ⟨rest, hq, hended⟩
  · obtain ⟨rest, hq, -⟩ := h.answered
    exact ⟨rest, hq, fun hne => absurd rfl hne⟩
  · rw [hpublications, List.append_nil]
    exact hadmitted
  · rw [hpublications]
    exact hgiven
  · show (s.published ++ [n]).length ≤ s.settings.backlog
    rw [List.length_append]
    exact room
  · exact h.asked k m (by simpa [note] using hmem)
  · exact h.confirmed.append [.published n] (by simp [Event.answer?])

/-- The acceptor ends. -/
theorem retire (h : s.Receives) (ended : s.closed = true) (staged : Queue Fiber Nat) :
    Receives { s with acceptor := .over, staged } := by
  have hended {P : Prop} (ho : s.closed = false) : P := by simp [ended] at ho
  refine ⟨?_, ?_, ?_, h.given, h.room, hended, h.asked, nofun, h.confirmed⟩
  · obtain ⟨rest, hq, -⟩ := h.decided
    exact ⟨rest, hq, hended⟩
  · obtain ⟨rest, hq, -⟩ := h.answered
    exact ⟨rest, hq, fun hne => absurd rfl hne⟩
  · obtain ⟨rest, hq, -⟩ := h.published
    exact ⟨rest, hq, fun hne => absurd rfl hne⟩

theorem acceptorTurn (h : s.Receives) (hco : s.view.Coherent) (first : Bool) :
    (s.acceptorTurn first).1.Receives := by
  have hsame {t u : Session} (h : t.Receives) (keeps : Keeps (fun _ => False) t u) : u.Receives :=
    h.keeps keeps fun _ => False.elim
  cases acceptorTurn_cases hco first with
  | rest _ keeps => exact hsame h keeps
  | stop ended staged keeps => exact hsame (h.retire ended staged) keeps
  | enter n c staged idle running take _ _ _ keeps =>
    exact hsame (h.enter idle running (Lanes.toList_of_take take)) keeps
  | turnAway n c staged idle running take _ _ _ _ keeps =>
    exact hsame (h.turnAway idle running (Lanes.toList_of_take take) c.id) keeps
  | publish n c publishing _ room _ keeps => exact hsame (h.publish publishing room c.id) keeps
  | late n staged publishing room ended keeps =>
    exact hsame (h.publishLate publishing room ended staged) keeps

theorem readerTurn (h : s.Receives) (hco : s.view.Coherent) (first : Bool) :
    (s.readerTurn first).1.Receives := by
  have hdispatched (f : Frame) : (({ s with idleTicks := 0 } : Session).note (.dispatched f)).Receives := by
    refine h.aside [.dispatched f] (fun e he => ?_) rfl rfl rfl rfl rfl fun ho => ⟨ho, rfl⟩
    rw [List.mem_singleton.1 he]
    exact ⟨rfl, rfl, rfl, rfl, rfl, nofun⟩
  cases readerTurn_cases first s with
  | quiet keeps => exact h.keeps keeps fun e he => he ▸ Event.aside_closed
  | heard f _ keeps =>
    exact (hdispatched f).keeps keeps fun e he => Event.aside_of_does he.1 (by simp) (fun _ => he.2.2) (by simp)
  | asked f _ staged woken push keeps =>
    refine ((hdispatched f).stage staged fun _ => ?_).keeps keeps fun _ => False.elim
    obtain ⟨lanes, hpush, htold⟩ := Option.map_eq_some_iff.1 push
    have hstate : staged.state = lanes := (congrArg (fun told => told.1.state) htold).symm
    show staged.state.toList = s.staged.state.toList ++ [s.conns.length]
    obtain ⟨before, after, hbefore, hafter, hlast⟩ := Lanes.toList_push hpush
    rw [hstate, hbefore, hafter, hlast rfl, List.append_nil]
  | late f _ push keeps =>
    refine ((hdispatched f).stage s.staged fun (ho : s.closed = false) => ?_).keeps keeps
      fun _ => False.elim
    have hstopped : s.staged.state.stopped = false := hco.staged.trans ho
    simp [Queue.push, Lanes.push, hstopped] at push

/-! ### The calls -/

/-- A call is given a connection that it did not accept. -/
theorem award (h : s.Receives) (hasked : s.works.requests[k]? = some .openConn) :
    (s.note (.finished k (.conn n))).Receives := by
  refine h.aside [.finished k (.conn n)] (fun e he => ?_) rfl rfl rfl rfl rfl fun ho => ⟨ho, rfl⟩
  have hrequest : (s.calls.map Call.request)[k]? = some .openConn := hasked
  rw [List.mem_singleton.1 he]
  refine ⟨rfl, rfl, rfl, rfl, by simp [Event.accepted?, hrequest], fun j m hj => ?_⟩
  cases hj
  exact (List.getElem?_eq_some_iff.1 hrequest).1

/-- An accept is given the first of the connections that are ready. -/
theorem accept (h : s.Receives) {rest : List Nat} (hasked : s.works.requests[k]? = some .accept)
    (hpublished : s.published = n :: rest) :
    (({ s with published := rest } : Session).note (.finished k (.conn n))).Receives := by
  have hrequest : (s.calls.map Call.request)[k]? = some .accept := hasked
  have hlt : k < s.calls.length := by simpa using (List.getElem?_eq_some_iff.1 hrequest).1
  have hacceptances : (({ s with published := rest } : Session).note (.finished k (.conn n))).acceptances =
      s.acceptances ++ [n] := by
    simp [acceptances, note, Event.accepted?, hrequest]
  refine ⟨h.decided, h.answered, h.published, ?_, ?_, h.running, fun j m hmem => ?_, fun m hm => ?_, ?_⟩
  · refine h.given.trans ?_
    rw [hacceptances, hpublished, List.append_assoc]
    rfl
  · refine Nat.le_trans ?_ h.room
    rw [hpublished]
    exact Nat.le_succ _
  · rcases List.mem_cons.1 hmem with hmem | hmem
    · cases hmem
      exact hlt
    · exact h.asked j m hmem
  · exact List.mem_cons_of_mem _ (h.registered m hm)
  · exact h.confirmed.append [.finished k (.conn n)] (by simp [Event.answer?])

theorem callTurn (h : s.Receives) (hp : s.Placed) (first : Bool) (k : Nat) :
    (s.callTurn first k).1.Receives := by
  have hbare {requests : List Request} (e : Event) (he : OfCall k e) : e.Aside requests :=
    Event.aside_of_does he.1 (by simp) (by simp) fun _ _ => he.2
  cases callTurn_cases hp first k with
  | bare keeps => exact h.keeps keeps hbare
  | award n asked keeps => exact (h.award asked).keeps keeps hbare
  | accept n rest asked published keeps => exact (h.accept asked published).keeps keeps hbare

/-! ### Runs -/

theorem turn (h : s.Receives) (hco : s.view.Coherent) (hp : s.Placed) (fiber : Fiber) (first : Bool) :
    (s.turn first fiber).1.Receives := by
  have hfoot := footprint_turn hco hp fiber first
  cases fiber with
  | reader => exact h.readerTurn hco first
  | acceptor => exact h.acceptorTurn hco first
  | call k => exact h.callTurn hp first k
  | writer | pinger | returns =>
    obtain ⟨es, hes, htrace⟩ := hfoot.trace
    refine h.aside es (fun e he => Event.aside_of_does (hes e he) (by simp) (by simp) (by simp)) htrace
      hfoot.works.settings (hfoot.works.acceptor (by simp)) (hfoot.works.published (by simp) (by simp))
      hfoot.works.requests fun ho => ⟨hfoot.running ho, hfoot.staged (by simp) (by simp) ho⟩

/-- Calls that begin have accepted nothing yet. -/
theorem served (h : s.Receives) (more : List Call) (count : Nat) : (s.served more count).Receives := by
  have hacceptances : (s.served more count).acceptances = s.acceptances := by
    unfold acceptances history
    refine congrArg List.reverse (List.filterMap_congr fun e he => ?_)
    cases e with
    | finished k outcome =>
      cases outcome with
      | conn n =>
        have hlt : k < (s.calls.map Call.request).length := by simpa using h.asked k n he
        simp only [Event.accepted?, Session.served, List.map_append]
        rw [List.getElem?_append_left hlt]
      | _ => rfl
    | _ => rfl
  refine ⟨h.decided, h.answered, h.published, ?_, h.room, h.running, fun k m hmem => ?_, h.registered, h.confirmed⟩
  · rw [hacceptances]
    exact h.given
  · refine Nat.lt_of_lt_of_le (h.asked k m hmem) ?_
    simp [Session.served]

end Receives

variable {s t : Session} {settings : Settings} {kind : LinkKind} {address : Option String}
  {capacity : Option Nat} {wall : Stamp} {m : Move}

theorem Reachable.receives (h : Reachable (start settings kind address capacity wall) s) : s.Receives := by
  refine h.invariant (P := Receives) ?_ (fun _ h => ?_) (fun _ keeps h => ?_) fun fiber first hsound hp h => ?_
  · exact ⟨⟨[], rfl, fun _ => rfl⟩, ⟨[], rfl, fun _ => rfl⟩, ⟨[], rfl, fun _ => rfl⟩, rfl, Nat.zero_le _,
      fun _ => by simp [start], nofun, nofun, trivial⟩
  · exact ⟨h.decided, h.answered, h.published, h.given, h.room, h.running, h.asked, h.registered, h.confirmed⟩
  · exact (h.served _ _).keeps keeps fun _ => Event.aside_of_outside
  · exact h.turn hsound.coherent hp fiber first

/-! ### Decisions -/

end Session

namespace View

variable {v w : View} {may : View → Nat → Prop} {settings : Settings}

/-- The connections that the peer asked for have the ids that its requests carried, in order. -/
def Announced (v : View) : Prop := (v.askedFor.map fun n => v.marks[n]?.map (·.1)) =
  (v.dispatched.filter (·.flag = .newConn)).map fun f => some f.id

theorem Step.announced (hs : Step may v w) (h : v.Sound settings) (hl : v.Listed) (ha : v.Announced) :
    w.Announced := by
  have hold : (v.askedFor.map fun n => w.marks[n]?.map (·.1)) = v.askedFor.map fun n => v.marks[n]?.map (·.1) := by
    refine List.map_congr_left fun n hn => ?_
    obtain ⟨f, hf, -⟩ := hl.unasked n hn
    obtain ⟨g, hg, hkept⟩ := hs.exists_kept h hf
    simp [marks_getElem? hg, marks_getElem? hf, hkept.id]
  unfold Announced
  rcases hs.askedFor with ⟨he, hd⟩ | ⟨frame, f, hflag, hd, he, hf, -, hid⟩
  · rw [he, hold, ha]
    rcases hd with hd | ⟨frame, hflag, hd⟩
    · rw [hd]
    · simp [hd, hflag]
  · rw [he, hd, List.map_append, hold, ha]
    simp [marks_getElem? hf, hid, hflag]

theorem Steps.announced (hs : Steps may v w) (h : v.Sound settings) (hl : v.Listed) (ha : v.Announced) :
    w.Listed ∧ w.Announced := by
  induction hs with
  | refl => exact ⟨hl, ha⟩
  | tail hsteps hstep ih =>
    have hsound := Steps.sound hsteps h
    exact ⟨hstep.listed hsound ih.1, hstep.announced hsound ih.1 ih.2⟩

end View

namespace Session

variable {s t : Session} {settings : Settings} {kind : LinkKind} {address : Option String}
  {capacity : Option Nat} {wall : Stamp}

theorem Reachable.announced (h : Reachable (start settings kind address capacity wall) s) :
    s.view.Listed ∧ s.view.Announced :=
  View.Steps.announced (h.steps (coherent_start settings kind address capacity wall))
    (View.sound_start settings) ⟨rfl, nofun, nofun, List.nodup_nil, List.nodup_nil⟩ rfl

end Session

end StreamMux
