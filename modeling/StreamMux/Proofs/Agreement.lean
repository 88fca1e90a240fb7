import StreamMux.Proofs.Filing

/-! The registry and the connections of a session agree in every run but those in which an open that
was refused gives up an id that is no longer its own. That one move is told from all others, and it
does break the agreement. -/

namespace StreamMux

namespace Session

variable {s s' : Session}

/-- Everything that is registered is an open connection under its own id. -/
def EntriesOpen (s : Session) : Prop :=
  ∀ id n, s.registry.get? id = some n → ∃ c, s.conns[n]? = some c ∧ c.id = id ∧ c.closed = false

/-- Every open connection that is no longer staged is what is registered under its id. -/
def OpenRegistered (s : Session) : Prop :=
  ∀ n c, s.conns[n]? = some c → c.closed = false → n ∉ s.staged.state.toList →
    s.registry.get? c.id = some n

/-- Two open connections that are no longer staged have different ids. -/
def IdsApart (s : Session) : Prop :=
  ∀ n m c d, s.conns[n]? = some c → s.conns[m]? = some d → c.closed = false → d.closed = false →
    n ∉ s.staged.state.toList → m ∉ s.staged.state.toList → c.id = d.id → n = m

/-- What is registered and stays open stays registered. -/
def KeepsOthers (s s' : Session) : Prop :=
  ∀ id n c, s.registry.get? id = some n → s'.conns[n]? = some c → c.closed = false →
    s'.registry.get? id = some n

/-- The move gives up a refused connection that is closed already, and whose id another one has. -/
def displaces (m : Move) (s : Session) : Bool :=
  match m with
  | .run fiber first =>
    match s.refused? fiber first with
    | none => false
    | some n =>
      match s.conns[n]? with
      | none => false
      | some c => c.closed && (s.registry.get? c.id).isSome
  | _ => false

/-- A state that a run from `init` leads to in which nothing was displaced. -/
inductive Undisturbed (init : Session) : Session → Prop
  | refl : Undisturbed init init
  | move {s s' : Session} (m : Move) : Undisturbed init s → s.displaces m = false →
      s.move? m = some s' → Undisturbed init s'

/-! ### From the view -/

theorem get?_eq_lookup (h : s.view.Coherent) (id : Int32) :
    s.registry.get? id = s.view.registry.lookup id := by
  unfold Registry.get?
  split
  · rename_i hc
    have hclosed : s.view.closed = true := h.registry.symm.trans hc
    rw [Registry.lookup, h.no_entries hclosed]
    rfl
  · rfl

theorem entriesOpen_of_filed (hco : s.view.Coherent) (h : s.view.Filed) : s.EntriesOpen := by
  intro id n hn
  rw [get?_eq_lookup hco] at hn
  exact exists_of_mark (h.mark_of_lookup hn)

theorem openRegistered_iff (hco : s.view.Coherent) : s.OpenRegistered ↔ s.view.Agrees := by
  constructor
  · intro h n id hm hn
    obtain ⟨c, hc, rfl, hopen⟩ := exists_of_mark hm
    rw [← get?_eq_lookup hco]
    exact h n c hc hopen hn
  · intro h n c hc hopen hn
    rw [get?_eq_lookup hco]
    exact h n c.id (hopen ▸ mark_of_conn hc) hn

theorem displaces_iff (hco : s.view.Coherent) {fiber : Fiber} {first : Bool} :
    s.displaces (.run fiber first) = true ↔
      ∃ n, s.refused? fiber first = some n ∧ s.view.Displaces n := by
  unfold displaces
  dsimp only
  split
  · rename_i hnone
    simp [hnone]
  · rename_i n hn
    simp only [hn, Option.some.injEq, exists_eq_left']
    obtain ⟨k, c, due, d, -, -, -, -, -, hd, -⟩ := exists_of_refused? hn
    simp only [hd, Bool.and_eq_true, Option.isSome_iff_exists]
    constructor
    · rintro ⟨hclosed, other, hother⟩
      exact ⟨d.id, other, hclosed ▸ mark_of_conn hd, by rw [← get?_eq_lookup hco, hother]⟩
    · rintro ⟨id, other, hm, hl⟩
      have := mark_of_conn hd
      rw [hm] at this
      obtain ⟨rfl, hclosed⟩ := Prod.mk.inj (Option.some.inj this)
      exact ⟨hclosed.symm, other, by rw [get?_eq_lookup hco, hl]⟩

/-! ### Moves that displace nothing -/

theorem steps_of_calm (h : s.view.Coherent) {m : Move} (hm : s.move? m = some s')
    (calm : s.displaces m = false) :
    View.Steps (fun v n => ¬ v.Displaces n) s.view s'.view := by
  refine steps_of_move? h hm fun fiber first n he hn hd => ?_
  subst he
  rw [(displaces_iff h).2 ⟨n, hn, hd⟩] at calm
  cases calm

theorem agrees_start (settings : Settings) (kind : LinkKind) (address : Option String)
    (capacity : Option Nat) (wall : Stamp) :
    (start settings kind address capacity wall).view.Agrees := by
  intro n id h _
  cases h

theorem Undisturbed.reachable {init : Session} (h : Undisturbed init s) : Reachable init s := by
  induction h with
  | refl => exact .refl
  | move m _ _ hm ih => exact ih.move m hm

theorem Undisturbed.agrees {init : Session} (hco : init.view.Coherent) (hfiled : init.view.Filed)
    (ha : init.view.Agrees) (h : Undisturbed init s) : s.view.Agrees := by
  induction h with
  | refl => exact ha
  | move m h calm hm ih =>
    have hsteps := h.reachable.steps hco
    exact (steps_of_calm (hsteps.coherent hco) hm calm).agrees (hsteps.filed hfiled) ih

/-! ### The move that displaces -/

theorem view_reap_cases (h : s.view.Coherent) : s.reap.view = s.view ∨ s.reap.view = s.view.close := by
  unfold reap
  split
  · exact .inl rfl
  · cases hc : s.closed
    · exact .inr (view_close h hc)
    · rw [close, if_pos hc]
      exact .inl rfl

/-- The turn of an open that sees that it was refused. -/
theorem takeTurn_of_refused {k : Nat} {first : Bool} {c : Call} {n : Nat} {due : Moment} {d : Conn}
    (hc : s.calls[k]? = some c) (hs : c.stage = .answering n due) (hlive : c.cancelled = false)
    (hsees : ¬ (s.closed ∧ first)) (hd : s.conns[n]? = some d) (hgiven : d.reply = .given false) :
    s.takeTurn (.call k) first =
      ((({ s with ready := s.ready.erase (.call k) } : Session).refuse n).finish k
        (.failed .connectionRefused), false) := by
  simp only [takeTurn, turn, callTurn, hc, Call.isOver, hs, Call.isGivenUp_of_live hlive, continueCall, hsees,
    awaitAnswer, hd, hgiven, Option.map_some, Bool.false_eq_true, ↓reduceIte, reduceCtorEq]

/-- What was registered under a displaced id is open, and registered no longer. -/
theorem not_agrees_of_displaced (hco : s.view.Coherent) (hfiled : s.view.Filed) {fiber : Fiber}
    {first : Bool} {n : Nat} (hn : s.refused? fiber first = some n) (hd : s.view.Displaces n) :
    ¬ (s.run fiber first).view.Agrees := by
  obtain ⟨k, c, due, d, rfl, hc, hs, hlive, hsees, hconn, hgiven⟩ := exists_of_refused? hn
  obtain ⟨id, other, hmark, hother⟩ := hd
  let t : Session := { s with ready := s.ready.erase (.call k) }
  have hid : d.id = id := by
    have := mark_of_conn hconn
    rw [hmark] at this
    exact (Prod.mk.inj (Option.some.inj this)).1.symm
  have hvt : (t.refuse n).view =
      ({ s.view with registry := (s.view.registry.delete id).1 } : View).setFace n d.face.shut := by
    rw [← hid]
    exact view_refuse (s := t) hconn
  have hcot : (t.refuse n).view.Coherent := by
    rw [hvt]
    exact hco.delete id _ (by simp)
  let u := (t.refuse n).view.setStage k (.over (.failed .connectionRefused))
  have hmo : s.view.marks[other]? = some (id, false) := hfiled.mark_of_lookup hother
  have hne : other ≠ n := fun he => by
    rw [he, hmark] at hmo
    cases hmo
  -- The other connection keeps its mark, and neither the registry nor the queue knows it any more.
  have humark : u.marks[other]? = some (id, false) := by
    show (t.refuse n).view.marks[other]? = _
    rw [hvt, View.marks_setFace, List.getElem?_set_ne (Ne.symm hne)]
    exact hmo
  have huout (i : Int32) : (i, other) ∉ u.registry.entries := by
    have hreg : u.registry = (s.view.registry.delete id).1 := by
      show (t.refuse n).view.registry = _
      rw [hvt]
      rfl
    rw [hreg]
    intro hmem
    simp only [Registry.delete, List.mem_filter, decide_eq_true_eq] at hmem
    have := hfiled.entry i other hmem.1
    rw [hmo] at this
    cases this
    exact hmem.2 rfl
  have hustaged : other ∉ u.staged.toList := by
    have hst : u.staged = s.view.staged := by
      show (t.refuse n).view.staged = _
      rw [hvt]
      rfl
    rw [hst]
    exact hfiled.staged_apart id other (Registry.mem_of_lookup hother)
  have hend : (s.run (.call k) first).view = u ∨ (s.run (.call k) first).view = u.close := by
    rw [view_run, takeTurn_of_refused hc hs hlive hsees hconn hgiven]
    have hv : (((t.refuse n).setStage k (.over (.failed .connectionRefused))).note
        (.finished k (.failed .connectionRefused))).view = u := by
      simp [u, Event.isTraffic]
    have hcou : (((t.refuse n).setStage k (.over (.failed .connectionRefused))).note
        (.finished k (.failed .connectionRefused))).view.Coherent := hv ▸ hcot.setStage _ _
    have := view_reap_cases hcou
    rwa [hv] at this
  intro ha
  rcases hend with hend | hend
  · rw [hend] at ha
    exact huout id (Registry.mem_of_lookup (ha other id humark hustaged))
  · rw [hend] at ha
    have hmem : other ∉ u.registry.entries.map (·.2) ++ u.staged.toList := by
      rw [List.mem_append, not_or]
      refine ⟨fun h => ?_, hustaged⟩
      obtain ⟨⟨i, m⟩, hm, rfl⟩ := List.mem_map.1 h
      exact huout i hm
    have hcmark : u.close.marks[other]? = some (id, false) := by
      simp only [View.marks, List.getElem?_map, Option.map_eq_some_iff] at humark ⊢
      obtain ⟨f, hf, he⟩ := humark
      refine ⟨f, ?_, he⟩
      show (u.shutAll _).faces[other]? = some f
      rw [View.shutAll_getElem?, hf, Option.map_some, if_neg hmem]
    have := ha other id hcmark (by simp [View.close, Lanes.toList])
    simp [View.close, Registry.lookup] at this

/-! ### The registry of every run -/

/-- Whatever the peer sends and however the fibers are scheduled, everything registered is an open
connection under its own id. As long as nothing is displaced, every open connection that is no longer
staged is what is registered under its id, so no two share one, and whatever is removed from the
registry is closed. The next move keeps this exactly if it displaces nothing. -/
theorem registry_agrees_iff_undisturbed (settings : Settings) (kind : LinkKind)
    (address : Option String) (capacity : Option Nat) (wall : Stamp) :
    (∀ s, Reachable (start settings kind address capacity wall) s → s.EntriesOpen) ∧
    ∀ s, Undisturbed (start settings kind address capacity wall) s →
      s.OpenRegistered ∧ s.IdsApart ∧
      ∀ m s', s.move? m = some s' →
        (s'.OpenRegistered ↔ s.displaces m = false) ∧ (s.displaces m = false → s.KeepsOthers s') := by
  have hco₀ := coherent_start settings kind address capacity wall
  have hfiled₀ := filed_start settings kind address capacity wall
  refine ⟨fun s hr => ?_, fun s hu => ?_⟩
  · exact entriesOpen_of_filed ((hr.steps hco₀).coherent hco₀) ((hr.steps hco₀).filed hfiled₀)
  · have hsteps := hu.reachable.steps hco₀
    have hco := hsteps.coherent hco₀
    have hfiled := hsteps.filed hfiled₀
    have hagrees := hu.agrees hco₀ hfiled₀ (agrees_start _ _ _ _ _)
    have hopen : s.OpenRegistered := (openRegistered_iff hco).2 hagrees
    refine ⟨hopen, ?_, fun m s' hm => ?_⟩
    · intro n m c d hc hd hcopen hdopen hn hm hid
      have h₁ := hopen n c hc hcopen hn
      have h₂ := hopen m d hd hdopen hm
      rw [hid, h₂] at h₁
      exact (Option.some.inj h₁).symm
    · have hco' := (hu.reachable.move m hm).steps hco₀ |>.coherent hco₀
      have hcalm (calm : s.displaces m = false) : s'.OpenRegistered :=
        (openRegistered_iff hco').2 ((steps_of_calm hco hm calm).agrees hfiled hagrees)
      refine ⟨⟨fun h => ?_, hcalm⟩, fun calm id n c hn hc hcopen => ?_⟩
      · cases hdis : s.displaces m
        · rfl
        · exfalso
          cases m with
          | run fiber first =>
            obtain ⟨n, hn, hd⟩ := (displaces_iff hco).1 hdis
            simp only [move?] at hm
            split at hm
            · cases hm
              exact not_agrees_of_displaced hco hfiled hn hd ((openRegistered_iff hco').1 h)
            · cases hm
          | _ => cases hdis
      · have hmark := hfiled.mark_of_lookup (get?_eq_lookup hco id ▸ hn)
        have hunstaged := hfiled.staged_apart id n (Registry.mem_of_lookup (get?_eq_lookup hco id ▸ hn))
        obtain ⟨⟨closed, hmark'⟩, hunstaged'⟩ :=
          (steps_of_calm hco hm calm).keeps hfiled hmark hunstaged
        have := mark_of_conn hc
        rw [hmark'] at this
        obtain ⟨rfl, -⟩ := Prod.mk.inj (Option.some.inj this)
        exact hcalm calm n c hc hcopen hunstaged'

/-- The state after moves that can be made in order and displace nothing. -/
def playCalm : List Move → Session → Option Session
  | [], s => some s
  | m :: moves, s => if s.displaces m then none else (s.move? m).bind (playCalm moves)

theorem undisturbed_of_playCalm {init : Session} (h : Undisturbed init s) {moves : List Move}
    (hp : s.playCalm moves = some s') : Undisturbed init s' := by
  induction moves generalizing s with
  | nil => cases hp; exact h
  | cons m moves ih =>
    rw [playCalm] at hp
    split at hp
    · cases hp
    · rename_i hcalm
      obtain ⟨t, ht, hp⟩ := Option.bind_eq_some_iff.1 hp
      exact ih (h.move m (by simpa using hcalm) ht) hp

/-- An open, then frames from the peer that refuse it, overflow its placeholder and ask for a connection
under the same id, which the acceptor registers and publishes. -/
def collision : List Move :=
  [.ask .openConn, .run (.call 0) true, .run (.call 0) true,
    .deliver [2, 1, 0, 0, 0, 3, 1, 0, 0, 0, 2, 0, 120, 120, 6, 1, 0, 0, 0]] ++
  List.replicate 6 (.run .reader true) ++ List.replicate 2 (.run .acceptor true)

/-- The open that looks at its refusal only then removes the new connection from the registry. -/
theorem registry_disagrees_after_collision :
    ∃ s s', Undisturbed (start (.build [.receiveWindow 1]) .tcp none none 0) s ∧ s.OpenRegistered ∧
      s.move? (.run (.call 0) true) = some s' ∧ ¬ s'.OpenRegistered := by
  have hplay : ((start (.build [.receiveWindow 1]) .tcp none none 0).playCalm collision).any
      (fun s => s.displaces (.run (.call 0) true) && (s.move? (.run (.call 0) true)).isSome) = true := by
    decide +kernel
  obtain ⟨s, hs, hlast⟩ := (Option.any_eq_true _ _).1 hplay
  rw [Bool.and_eq_true] at hlast
  obtain ⟨s', hs'⟩ := Option.isSome_iff_exists.1 hlast.2
  have hu := undisturbed_of_playCalm .refl hs
  obtain ⟨hopen, -, hnext⟩ := (registry_agrees_iff_undisturbed _ _ _ _ _).2 s hu
  refine ⟨s, s', hu, hopen, hs', fun h => ?_⟩
  have := (hnext _ s' hs').1.1 h
  rw [hlast.1] at this
  cases this

end Session

end StreamMux
