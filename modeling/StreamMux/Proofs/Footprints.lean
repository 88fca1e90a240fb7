import StreamMux.Proofs.Records

/-! What a turn of a fiber and a move of the user or the far end leave alone. Each changes the works that
are its own and records the events that are its own, so a fact that only some of them touch is kept by
all others. -/

namespace StreamMux

/-- From `w` to `w'` only the works of one fiber changed. -/
structure Works.SameBut (fiber : Fiber) (w w' : Works) : Prop where
  settings : w'.settings = w.settings
  kind : w'.kind = w.kind
  requests : w'.requests = w.requests
  writer : fiber ≠ .writer → w'.writer = w.writer ∧ w'.held = w.held
  acceptor : fiber ≠ .acceptor → w'.acceptor = w.acceptor
  published : fiber ≠ .acceptor → (∀ k, fiber ≠ .call k) → w'.published = w.published
  pinger : fiber ≠ .pinger → w'.pinger = w.pinger
  misses : fiber ≠ .pinger → fiber ≠ .returns → w'.misses = w.misses
  idleTicks : fiber ≠ .pinger → fiber ≠ .reader → w'.idleTicks = w.idleTicks

theorem Works.SameBut.refl (fiber : Fiber) (w : Works) : w.SameBut fiber w := by
  constructor <;> simp

/-- So many bytes the far end of the link asks for. -/
def Move.takes : Move → Nat
  | .takeOutput count => count
  | _ => 0

namespace Session

variable {r s t u : Session} {p : Event → Prop}

/-- What a turn of a fiber touches. -/
structure Footprint (fiber : Fiber) (s t : Session) : Prop where
  works : s.works.SameBut fiber t.works
  trace : ∃ es, (∀ e ∈ es, fiber.Does e) ∧ t.trace = es ++ s.trace
  running : t.closed = false → s.closed = false
  staged : fiber ≠ .reader → fiber ≠ .acceptor → t.closed = false → t.staged.state = s.staged.state
  placed : s.Placed → t.Placed

/-- A turn that begins with changes that are its own, and keeps the rest. -/
theorem Footprint.of_keeps {fiber : Fiber} (keeps : Keeps p r t) (does : ∀ e, p e → fiber.Does e)
    (works : s.works.SameBut fiber r.works)
    (trace : ∃ es, (∀ e ∈ es, fiber.Does e) ∧ r.trace = es ++ s.trace)
    (running : r.closed = s.closed) (staged : fiber ≠ .reader → fiber ≠ .acceptor → r.staged = s.staged)
    (calls : r.calls = s.calls) : Footprint fiber s t where
  works := keeps.works ▸ works
  trace := by
    obtain ⟨ds, hds, hr⟩ := trace
    obtain ⟨es, hes, ht⟩ := keeps.trace
    refine ⟨es ++ ds, fun e he => ?_, by rw [ht, hr, List.append_assoc]⟩
    exact (List.mem_append.1 he).elim (fun he => does e (hes e he)) (hds e)
  running ht := running ▸ (keeps.running ht).1
  staged hr ha ht := (keeps.running ht).2.trans (congrArg Monitor.state (staged hr ha))
  placed hs := by
    refine keeps.placed ?_
    rw [Session.Placed, calls]
    exact hs

/-! ### Turns -/

theorem footprint_writerTurn (h : s.view.Coherent) (first : Bool) :
    Footprint .writer s (s.writerTurn first).1 := by
  have hclose : ∀ e, e = .closed → Fiber.writer.Does e := by rintro _ rfl; rfl
  have hworks (writer : WriterStage) (held : Bytes) :
      s.works.SameBut .writer { s.works with writer, held } := by constructor <;> simp
  have hstarted (out : Outgoing) : ∃ es, (∀ e ∈ es, Fiber.writer.Does e) ∧
      .started out :: s.trace = es ++ s.trace := ⟨[.started out], by simp [Fiber.Does, Fiber.records], rfl⟩
  cases writerTurn_cases h first with
  | rest keeps => exact .of_keeps keeps (fun _ => False.elim) (.refl ..) ⟨[], by simp, rfl⟩ rfl (fun _ _ => rfl) rfl
  | stop _ keeps => exact .of_keeps keeps hclose (hworks ..) ⟨[], by simp, rfl⟩ rfl (fun _ _ => rfl) rfl
  | begin out _ _ _ _ _ keeps =>
    exact .of_keeps keeps (fun _ => False.elim) (hworks ..) (hstarted out) rfl (fun _ _ => rfl) rfl
  | balk out _ _ _ _ _ _ keeps => exact .of_keeps keeps hclose (hworks ..) (hstarted out) rfl (fun _ _ => rfl) rfl
  | write chunk _ _ keeps =>
    exact .of_keeps keeps (fun _ => False.elim) (hworks ..)
      ⟨[.wrote chunk], by simp [Fiber.Does, Fiber.records], rfl⟩ rfl (fun _ _ => rfl) rfl

theorem footprint_readerTurn (first : Bool) (s : Session) : Footprint .reader s (s.readerTurn first).1 := by
  have hworks (idleTicks : Nat) : s.works.SameBut .reader { s.works with idleTicks } := by
    constructor <;> simp
  have hasked (f : Frame) : ∃ es, (∀ e ∈ es, Fiber.reader.Does e) ∧
      .staged s.conns.length :: .dispatched f :: s.trace = es ++ s.trace :=
    ⟨[.staged s.conns.length, .dispatched f], by simp [Fiber.Does, Fiber.records], rfl⟩
  cases readerTurn_cases first s with
  | quiet keeps =>
    exact .of_keeps keeps (by rintro _ rfl; rfl) (.refl ..) ⟨[], by simp, rfl⟩ rfl (by simp) rfl
  | heard f _ keeps =>
    exact .of_keeps keeps (fun _ he => he.1) (hworks 0)
      ⟨[.dispatched f], by simp [Fiber.Does, Fiber.records], rfl⟩ rfl (by simp) rfl
  | asked f _ staged _ _ keeps => exact .of_keeps keeps (fun _ => False.elim) (hworks 0) (hasked f) rfl (by simp) rfl
  | late f _ _ keeps => exact .of_keeps keeps (fun _ => False.elim) (hworks 0) (hasked f) rfl (by simp) rfl

theorem footprint_acceptorTurn (h : s.view.Coherent) (first : Bool) :
    Footprint .acceptor s (s.acceptorTurn first).1 := by
  have hworks (acceptor : AcceptorStage) (published : List Nat) :
      s.works.SameBut .acceptor { s.works with acceptor, published } := by constructor <;> simp
  have hdoes (es : List Event) (hes : ∀ e ∈ es, Fiber.acceptor.Does e) :
      ∃ ds, (∀ e ∈ ds, Fiber.acceptor.Does e) ∧ es ++ s.trace = ds ++ s.trace := ⟨es, hes, rfl⟩
  cases acceptorTurn_cases h first with
  | rest _ keeps => exact .of_keeps keeps (fun _ => False.elim) (.refl ..) ⟨[], by simp, rfl⟩ rfl (by simp) rfl
  | stop _ staged keeps => exact .of_keeps keeps (fun _ => False.elim) (hworks ..) ⟨[], by simp, rfl⟩ rfl (by simp) rfl
  | enter n c staged _ _ _ _ _ _ keeps =>
    exact .of_keeps keeps (fun _ => False.elim) (hworks (.publishing n) s.published)
      (hdoes [.decided n true, .registered n] (by simp [Fiber.Does, Fiber.records])) rfl (by simp) rfl
  | turnAway n c staged _ _ _ _ _ _ _ keeps =>
    exact .of_keeps keeps (fun _ => False.elim) (.refl ..)
      (hdoes [.queued { frame := .control .newConnFail c.id, conn := n }, .decided n false]
        (by simp [Fiber.Does, Fiber.records, Fiber.queues, Frame.control])) rfl (by simp) rfl
  | publish n c _ _ _ _ keeps =>
    exact .of_keeps keeps (fun _ => False.elim) (hworks .idle (s.published ++ [n]))
      (hdoes [.queued { frame := .control .newConnOk c.id, conn := n }, .published n]
        (by simp [Fiber.Does, Fiber.records, Fiber.queues, Frame.control])) rfl (by simp) rfl
  | late n staged _ _ _ keeps =>
    exact .of_keeps keeps (fun _ => False.elim) (hworks .over (s.published ++ [n]))
      (hdoes [.published n] (by simp [Fiber.Does, Fiber.records])) rfl (by simp) rfl

theorem footprint_pingerTurn (s : Session) : Footprint .pinger s s.pingerTurn.1 := by
  obtain ⟨pinger, misses, idleTicks, keeps⟩ := keeps_pingerTurn s
  have hworks : s.works.SameBut .pinger { s.works with pinger, misses, idleTicks } := by
    constructor <;> simp
  exact .of_keeps keeps (fun _ => id) hworks ⟨[], by simp, rfl⟩ rfl (fun _ _ => rfl) rfl

theorem footprint_returnsTurn (first : Bool) (s : Session) :
    Footprint .returns s (s.returnsTurn first).1 := by
  have hworks : s.works.SameBut .returns { s.works with misses := 0 } := by constructor <;> simp
  rcases returnsTurn_cases first s with keeps | ⟨payload, keeps⟩
  · exact .of_keeps keeps (fun _ => False.elim) (.refl ..) ⟨[], by simp, rfl⟩ rfl (fun _ _ => rfl) rfl
  · exact .of_keeps keeps (fun _ => False.elim) hworks
      ⟨[.returned payload], by simp [Fiber.Does, Fiber.records], rfl⟩ rfl (fun _ _ => rfl) rfl

theorem footprint_callTurn (hp : s.Placed) (first : Bool) (k : Nat) :
    Footprint (.call k) s (s.callTurn first k).1 := by
  have hworks (published : List Nat) : s.works.SameBut (.call k) { s.works with published } := by
    constructor <;> simp
  have hgiven (n : Nat) : ∃ es, (∀ e ∈ es, (Fiber.call k).Does e) ∧
      .finished k (.conn n) :: s.trace = es ++ s.trace :=
    ⟨[.finished k (.conn n)], by simp [Fiber.Does, Fiber.records], rfl⟩
  cases callTurn_cases hp first k with
  | bare keeps => exact .of_keeps keeps (fun _ he => he.1) (.refl ..) ⟨[], by simp, rfl⟩ rfl (fun _ _ => rfl) rfl
  | award n _ keeps => exact .of_keeps keeps (fun _ he => he.1) (.refl ..) (hgiven n) rfl (fun _ _ => rfl) rfl
  | accept n rest _ _ keeps => exact .of_keeps keeps (fun _ he => he.1) (hworks rest) (hgiven n) rfl (fun _ _ => rfl) rfl

theorem footprint_turn (h : s.view.Coherent) (hp : s.Placed) (fiber : Fiber) (first : Bool) :
    Footprint fiber s (s.turn first fiber).1 := by
  cases fiber with
  | writer => exact footprint_writerTurn h first
  | reader => exact footprint_readerTurn first s
  | acceptor => exact footprint_acceptorTurn h first
  | pinger => exact footprint_pingerTurn s
  | returns => exact footprint_returnsTurn first s
  | call k => exact footprint_callTurn hp first k

theorem exists_run (fiber : Fiber) (first : Bool) (s : Session) :
    ∃ ready, s.run fiber first = { (s.takeTurn fiber first).1 with ready } := by
  rw [run_eq]
  split <;> exact ⟨_, rfl⟩

/-! ### Moves -/

/-- The user has started calls, and the far end of the link has taken bytes. -/
def served (more : List Call) (count : Nat) (s : Session) : Session :=
  { s with calls := s.calls ++ more, outlet := { s.outlet with held := s.outlet.held.drop count } }

/-- A move of the user or of the far end keeps what is kept, but that it may start a call or take bytes. -/
theorem keeps_move {m : Move} (hm : s.move? m = some t) (hrun : ∀ fiber first, m ≠ .run fiber first) :
    ∃ more, (∀ c ∈ more, c.Placed) ∧ Keeps (fun e => e.isOutside = true) (s.served more m.takes) t := by
  have hstill {u : Session} (h : Keeps (fun e => e.isOutside = true) s u) : ∃ more,
      (∀ c ∈ more, c.Placed) ∧ Keeps (fun e => e.isOutside = true) (s.served more 0) u := by
    refine ⟨[], by simp, ?_⟩
    rw [served, List.append_nil, List.drop_zero]
    exact h
  cases m with
  | ask request =>
    simp only [move?, ask] at hm
    split at hm <;> cases hm
    exact ⟨[{ request }], by simp [Call.Placed], (Keeps.refl _).of_eq rfl rfl rfl rfl rfl⟩
  | cancel k =>
    cases hm
    refine hstill ?_
    unfold cancel
    split
    · exact .refl s
    · split
      · exact .refl s
      · refine ⟨?_, ⟨[], by simp, rfl⟩, fun h => ⟨h, rfl⟩, fun hp c hc => ?_⟩
        · refine congrArg (fun requests => { s.works with requests }) ?_
          apply List.ext_getElem?
          intro j
          simp only [wake, List.getElem?_map, List.getElem?_modify]
          cases s.calls[j]? <;> simp
          split <;> rfl
        · obtain ⟨j, hj⟩ := List.mem_iff_getElem?.1 hc
          simp only [wake, List.getElem?_modify] at hj
          obtain ⟨d, hd, rfl⟩ := Option.map_eq_some_iff.1 hj
          have hplaced := hp d (List.mem_of_getElem? hd)
          split <;> exact hplaced
  | close =>
    simp only [move?, close?] at hm
    split at hm
    · split at hm <;> cases hm
      exact hstill ((Keeps.refl s).close rfl)
    · cases hm
  | dropHandle =>
    simp only [move?] at hm
    split at hm <;> cases hm
    refine hstill (Keeps.reap (t := { s with handle := false }) ?_ rfl)
    exact (Keeps.refl s).of_eq rfl rfl rfl rfl rfl
  | closeConn n =>
    simp only [move?] at hm
    split at hm <;> cases hm
    exact hstill ((Keeps.refl s).closeConn n fun _ => rfl)
  | deliver bytes =>
    cases hm
    refine hstill ?_
    have harrived := (Keeps.refl (p := fun e => e.isOutside = true) s).note (e := .arrived bytes) rfl
    unfold deliver wakeReading
    split <;> exact harrived.of_eq rfl rfl rfl rfl rfl
  | endInput ending =>
    cases hm
    refine hstill ?_
    unfold endInput wakeReading
    split <;> exact (Keeps.refl s).of_eq rfl rfl rfl rfl rfl
  | takeOutput count =>
    cases hm
    refine ⟨[], by simp, ?_⟩
    rw [served, List.append_nil, Move.takes]
    unfold takeOutput wakeWriting
    split <;> exact (Keeps.refl _).of_eq rfl rfl rfl rfl rfl
  | resizeOutput capacity =>
    cases hm
    refine hstill ?_
    unfold resizeOutput wakeWriting
    split <;> exact (Keeps.refl s).of_eq rfl rfl rfl rfl rfl
  | breakOutput =>
    cases hm
    refine hstill ?_
    unfold breakOutput wakeWriting
    split <;> exact (Keeps.refl s).of_eq rfl rfl rfl rfl rfl
  | advance span =>
    cases hm
    exact hstill ((Keeps.refl s).of_eq rfl rfl rfl rfl rfl)
  | run fiber first => exact absurd rfl (hrun fiber first)

/-- A move is a turn of a fiber, or keeps what is kept but that it may start a call or take bytes. -/
theorem move_cases {m : Move} (hm : s.move? m = some t) :
    (∃ fiber first ready ready', m = .run fiber first ∧
      t = { (({ s with ready } : Session).turn first fiber).1 with ready := ready' }) ∨
    (∀ fiber first, m ≠ .run fiber first) ∧ ∃ more, (∀ c ∈ more, c.Placed) ∧
      Keeps (fun e => e.isOutside = true) (s.served more m.takes) t := by
  by_cases hrun : ∃ fiber first, m = .run fiber first
  · obtain ⟨fiber, first, rfl⟩ := hrun
    simp only [move?] at hm
    split at hm <;> cases hm
    obtain ⟨ready, hready⟩ := exists_run fiber first s
    exact .inl ⟨fiber, first, s.ready.erase fiber, ready, rfl, hready⟩
  · have hnot : ∀ fiber first, m ≠ .run fiber first := fun fiber first he => hrun ⟨fiber, first, he⟩
    exact .inr ⟨hnot, keeps_move hm hnot⟩

/-! ### Runs -/

section Runs

variable {settings : Settings} {kind : LinkKind} {address : Option String} {capacity : Option Nat}
  {wall : Stamp}

theorem Reachable.placed (h : Reachable (start settings kind address capacity wall) s) : s.Placed := by
  induction h with
  | refl => exact fun c hc => by simp [start] at hc
  | @move t u m ht hm ih =>
    rcases move_cases hm with ⟨fiber, first, ready, ready', -, rfl⟩ | ⟨-, more, hmore, keeps⟩
    · exact (footprint_turn (s := { t with ready }) ht.sound.coherent ih fiber first).placed ih
    · exact keeps.placed fun c hc => (List.mem_append.1 hc).elim (ih c) (hmore c)

/-- What every turn keeps, whatever the line of the ready fibers, and every move that is no turn, holds in
every run. -/
theorem Reachable.invariant {P : Session → Prop} (hstart : P (start settings kind address capacity wall))
    (hready : ∀ {t : Session} (ready : List Fiber), P t → P { t with ready })
    (hstill : ∀ {t u : Session} {more : List Call} {count : Nat}, t.view.Sound settings →
      Keeps (fun e => e.isOutside = true) (t.served more count) u → P t → P u)
    (hturn : ∀ {t : Session} (fiber : Fiber) (first : Bool), t.view.Sound settings → t.Placed → P t →
      P (t.turn first fiber).1)
    (h : Reachable (start settings kind address capacity wall) s) : P s := by
  induction h with
  | refl => exact hstart
  | @move t u m ht hm ih =>
    rcases move_cases hm with ⟨fiber, first, ready, ready', -, rfl⟩ | ⟨-, more, -, keeps⟩
    · exact hready ready' (hturn (t := { t with ready }) fiber first ht.sound ht.placed (hready ready ih))
    · exact hstill ht.sound keeps ih

end Runs

end Session

end StreamMux
