import Mathlib.Logic.Function.Basic
import StreamMux.Proofs.Channel
import StreamMux.Proofs.Sound

/-! Two views side by side. A run of a pair of sessions comes down to single steps of the two views in
turn, and at each of them what one side has heard is the beginning of what the other side's writer
took. -/

namespace StreamMux

/-! ### Started alike -/

namespace View

/-- The view of a session at its start. -/
def start (settings : Settings) : View where
  settings
  closed := false
  registry := {}
  faces := []
  outbox := {}
  staged := {}
  acceptor := .idle
  published := []
  calls := []
  deeds := []

theorem sound_start (settings : Settings) : (start settings).Sound settings where
  configured := rfl
  coherent := Session.coherent_start settings .tcp none none 0
  filed := Session.filed_start settings .tcp none none 0
  asked _ h := by cases h
  orderly := {
    normal := fun _ h => by cases h
    named := fun _ h => by cases h
    lanes := fun lane => ⟨[], rfl, fun _ => by cases lane <;> rfl⟩ }
  rooted _ h := by cases h
  vouched := {
    faces := fun _ h => by cases h
    held := fun n h => by rcases h with ⟨_, h, _⟩ | h | h | h <;> cases h
    said := fun _ h => by cases h }
  stories n s h := by simp [story, start] at h
  named n s h := by simp [story, start] at h
  drained _ _ _ h := by cases h
  dispatched := rfl
  heard _ := rfl

variable {v w : View} {may : View → Nat → Prop}

/-- What was heard and what was started stays so. -/
theorem Step.dispatched_prefix (hs : Step may v w) : v.dispatched <+: w.dispatched := by
  cases hs.hearing with
  | silent hearings dispatched => exact ⟨[], by rw [List.append_nil, dispatched]⟩
  | heard frame target hearings dispatched => exact ⟨[frame], dispatched.symm⟩

theorem Step.started_prefix (hs : Step may v w) (hco : v.Coherent) (hfiled : v.Filed) (ha : v.Asked) :
    v.started <+: w.started := by
  cases hs.speaking hco hfiled ha with
  | silent queued started | said out reason running queued started | ended queued started =>
    exact ⟨[], by rw [List.append_nil, started]⟩
  | began out running queued started closed outbox => exact ⟨[out], started.symm⟩

/-- What the writer took was queued. -/
theorem Orderly.mem_queued (h : v.Orderly) {out : Outgoing} (hout : out ∈ v.started) : out ∈ v.queued := by
  obtain ⟨rest, hq, -⟩ := h.lanes out.lane
  have : out ∈ onLane out.lane v.queued := by
    rw [hq]
    exact List.mem_append_left _ (List.mem_filter.2 ⟨hout, by simp⟩)
  exact (List.mem_filter.1 this).1

end View

/-! ### Joint runs -/

/-- Any refused connection may be given up. -/
abbrev anyOne : View → Nat → Prop := fun _ _ => True

/-- A state of two views in a joint run. -/
inductive Joint (settings : Settings) : (Side → View) → Prop
  | start : Joint settings fun _ => .start settings
  | step {v : Side → View} {w : View} (side : Side) : Joint settings v →
      View.Step anyOne (v side) w → w.dispatched <+: heardAs (v side.other).started →
      Joint settings (Function.update v side w)

theorem Side.other_ne (side : Side) : side.other ≠ side := by cases side <;> simp [Side.other]

namespace Joint

variable {settings : Settings} {v : Side → View} {w : View} {side : Side}

theorem update_other : Function.update v side w side.other = v side.other :=
  Function.update_of_ne side.other_ne _ _

theorem sound (h : Joint settings v) (side : Side) : (v side).Sound settings := by
  induction h with
  | start => exact View.sound_start settings
  | @step v w a h hs hheard ih =>
    rcases Pair.eq_or_eq_other a side with rfl | rfl
    · rw [Function.update_self]
      exact hs.sound ih
    · rw [update_other]
      exact ih

/-- What a session keeps at every step holds of both sides. -/
theorem invariant {P : View → Prop} (hstart : P (.start settings))
    (hstep : ∀ v w, v.Sound settings → View.Step anyOne v w → P v → P w) (h : Joint settings v)
    (side : Side) : P (v side) := by
  induction h with
  | start => exact hstart
  | @step v w a h hs hheard ih =>
    rcases Pair.eq_or_eq_other a side with rfl | rfl
    · rw [Function.update_self]
      exact hstep _ _ (h.sound _) hs ih
    · rw [update_other]
      exact ih

/-- What one side has heard is the beginning of what the other side started. -/
theorem heard (h : Joint settings v) (side : Side) :
    (v side).dispatched <+: (v side.other).started.map (·.frame) := by
  have hnormal {u : View} (hu : u.Sound settings) : heardAs u.started = u.started.map (·.frame) := by
    refine List.map_congr_left fun out hout => ?_
    exact hu.orderly.normal out (hu.orderly.mem_queued hout)
  induction h with
  | start => exact List.prefix_refl _
  | @step v w a h hs hheard ih =>
    rcases Pair.eq_or_eq_other a side with rfl | rfl
    · rw [Function.update_self, update_other, ← hnormal (h.sound _)]
      exact hheard
    · rw [Pair.other_other, Function.update_self, update_other]
      rw [Pair.other_other] at ih
      have ha := h.sound a
      exact ih.trans ((hs.started_prefix ha.coherent ha.filed ha.asked).map _)

/-- One side takes several steps. -/
theorem steps (h : Joint settings v) (hs : View.Steps anyOne (v side) w)
    (hheard : w.dispatched <+: heardAs (v side.other).started) :
    Joint settings (Function.update v side w) := by
  induction hs with
  | refl => rwa [Function.update_eq_self]
  | @tail x y hsteps hstep ih =>
    have hx := ih (hstep.dispatched_prefix.trans hheard)
    have := hx.step side (w := y) (by rwa [Function.update_self]) (by rwa [update_other])
    rwa [Function.update_idem] at this

end Joint

/-! ### Runs of a pair -/

namespace Pair

/-- Two sessions with the same settings that have just started. -/
def Initial (settings : Settings) (p : Pair) : Prop :=
  ∀ side, ∃ kind address capacity wall, p.side side = .start settings kind address capacity wall

def views (p : Pair) (side : Side) : View := (p.side side).view

theorem view_dispatched (s : Session) : s.view.dispatched = s.dispatched :=
  history_filter (fun e he => by cases e <;> first | rfl | cases he) s.trace

theorem view_started (s : Session) : s.view.started = s.started :=
  history_filter (fun e he => by cases e <;> first | rfl | cases he) s.trace

theorem view_queued (s : Session) : s.view.queued = s.queued :=
  history_filter (fun e he => by cases e <;> first | rfl | cases he) s.trace

variable {settings : Settings} {p p' : Pair}

theorem Initial.views (h : Initial settings p) : p.views = fun _ => .start settings := by
  funext side
  obtain ⟨kind, address, capacity, wall, hs⟩ := h side
  rw [Pair.views, hs]
  rfl

theorem Initial.linkedBoth (h : Initial settings p) : p.LinkedBoth := by
  intro side
  obtain ⟨_, _, _, _, hl⟩ := h side
  obtain ⟨_, _, _, _, hr⟩ := h side.other
  rw [hl, hr]
  exact ⟨rfl, rfl, List.prefix_refl _, fun _ => ⟨[], [], [], [], rfl, fun _ => rfl,
    (fun _ h => by cases h), rfl, rfl, rfl⟩⟩

theorem Reachable.linkedBoth {p₀ : Pair} (h₀ : p₀.LinkedBoth) (h : Reachable p₀ p) : p.LinkedBoth := by
  induction h with
  | refl => exact h₀
  | move m _ hm ih => exact ih.move hm

theorem view_carry (before after s : Session) : (carry before after s).view = s.view := by
  have hif (c : Prop) [Decidable c] (t u : Session) (h : t.view = u.view) :
      (if c then t else u).view = u.view := by
    split
    · exact h
    · rfl
  unfold carry
  dsimp only
  rw [hif _ _ _ (Session.view_breakOutput _), hif _ _ _ (Session.view_endInput _ _)]
  split
  · split
    · rfl
    · exact Session.view_takeOutput _ _
  · rw [Session.view_deliver]
    split
    · rfl
    · exact Session.view_takeOutput _ _

theorem views_setSide (side : Side) (s : Session) (p : Pair) :
    (p.setSide side s).views = Function.update p.views side s.view := by
  funext a
  rcases eq_or_eq_other side a with rfl | rfl
  · rw [Function.update_self, views, side_setSide]
  · rw [Joint.update_other, views, side_other_setSide, views]

theorem views_takeTurn (side : Side) (fiber : Fiber) (first : Bool) (p : Pair) :
    (p.takeTurn side fiber first).1.views =
      Function.update p.views side ((p.side side).takeTurn fiber first).1.view := by
  funext a
  rcases eq_or_eq_other side a with rfl | rfl
  · rw [Function.update_self, views, side_takeTurn]
  · rw [Joint.update_other, views, side_other_takeTurn, view_carry, views]

theorem views_run (side : Side) (fiber : Fiber) (first : Bool) (p : Pair) :
    (p.run side fiber first).views =
      Function.update p.views side ((p.side side).takeTurn fiber first).1.view := by
  rw [← views_takeTurn]
  unfold run
  rcases p.takeTurn side fiber first with ⟨q, goesOn⟩
  cases goesOn
  · rfl
  · show (q.setSide side _).views = _
    rw [views_setSide]
    exact Function.update_eq_self side q.views

/-- A move of a pair comes down to steps of one view, which hears what the other side started. -/
theorem exists_steps_of_move? (hj : Joint settings p.views) (hlinked : p'.LinkedBoth) {m : PairMove}
    (hm : p.move? m = some p') : ∃ side w, p'.views = Function.update p.views side w ∧
      View.Steps anyOne (p.views side) w ∧ w.dispatched <+: heardAs (p.views side.other).started := by
  -- What one side has heard after the move is the beginning of what the other started, then as before.
  have hgo (side : Side) {w : View} (hv : p'.views = Function.update p.views side w)
      (hs : View.Steps anyOne (p.views side) w) : ∃ side w, p'.views = Function.update p.views side w ∧
        View.Steps anyOne (p.views side) w ∧ w.dispatched <+: heardAs (p.views side.other).started := by
    refine ⟨side, w, hv, hs, ?_⟩
    have hl := hlinked side.other
    have hself : (p'.side side).view = w := by
      have := congrFun hv side
      rwa [Function.update_self] at this
    have hother : (p'.side side.other).view = p.views side.other := by
      have := congrFun hv side.other
      rwa [Joint.update_other] at this
    rw [other_other] at hl
    have hheard : (p'.side side).dispatched <+: heardAs (p'.side side.other).started := hl.heard
    rwa [← view_dispatched, ← view_started, hself, hother] at hheard
  cases m with
  | onSide side m =>
    simp only [move?] at hm
    split at hm
    · obtain ⟨s, hs, rfl⟩ := Option.map_eq_some_iff.1 hm
      exact hgo side (views_setSide side s p)
        (Session.steps_of_move? (hj.sound side).coherent hs fun _ _ _ _ _ => trivial)
    · cases hm
  | advance span =>
    cases hm
    have hviews : (p.advance span).views = p.views := by
      funext side
      cases side <;> rfl
    refine hgo .left (w := p.views .left) ?_ .refl
    rw [hviews, Function.update_eq_self]
  | run side fiber first =>
    simp only [move?] at hm
    split at hm
    · cases hm
      exact hgo side (views_run side fiber first p)
        (Session.steps_takeTurn (hj.sound side).coherent fiber first fun _ _ => trivial)
    · cases hm

/-- A state that a pair reaches is one of a joint run. -/
theorem Reachable.joint {p₀ : Pair} (h₀ : Initial settings p₀) (h : Reachable p₀ p) :
    Joint settings p.views := by
  induction h with
  | refl => exact h₀.views ▸ .start
  | @move p p' m hr hm ih =>
    obtain ⟨side, w, hv, hs, hheard⟩ :=
      exists_steps_of_move? ih ((hr.move m hm).linkedBoth h₀.linkedBoth) hm
    rw [hv]
    exact ih.steps hs hheard

/-! ### Rounds -/

/-- Two sessions that have just started, over links that hold any number of bytes. -/
def fresh (settings : Settings) : Pair :=
  ⟨.start settings .tcp none none 0, .start settings .tcp none none 0⟩

theorem initial_fresh (settings : Settings) : Initial settings (fresh settings) := by
  intro side
  cases side <;> exact ⟨_, _, _, _, rfl⟩

/-- Run whoever is ready, the left side first, for at most so many turns. -/
def settle : Nat → Pair → Pair
  | 0, p => p
  | turns + 1, p =>
    match p.left.ready, p.right.ready with
    | fiber :: _, _ => (p.run .left fiber true).settle turns
    | [], fiber :: _ => (p.run .right fiber true).settle turns
    | [], [] => p

/-- The state after rounds in which the users make their moves, and then both sides run. -/
def rounds : List (List (Side × Move)) → Pair → Option Pair
  | [], p => some p
  | moves :: later, p =>
    (moves.foldlM (fun (p : Pair) m => p.move? (.onSide m.1 m.2)) p).bind fun p =>
      (p.settle 80).rounds later

theorem Reachable.settle {p₀ p : Pair} (h : Reachable p₀ p) (turns : Nat) :
    Reachable p₀ (p.settle turns) := by
  induction turns generalizing p with
  | zero => exact h
  | succ turns ih =>
    unfold Pair.settle
    have hrun (side : Side) (fiber : Fiber) (hready : fiber ∈ (p.side side).ready) :
        Reachable p₀ (p.run side fiber true) :=
      h.move (.run side fiber true) (if_pos hready)
    split
    · rename_i fiber _ hready
      exact ih (hrun .left fiber (hready ▸ List.mem_cons_self))
    · rename_i fiber _ _ hready
      exact ih (hrun .right fiber (hready ▸ List.mem_cons_self))
    · exact h

theorem Reachable.moves {p₀ p q : Pair} (h : Reachable p₀ p) {moves : List PairMove}
    (hq : moves.foldlM Pair.move? p = some q) : Reachable p₀ q := by
  induction moves generalizing p with
  | nil => cases hq; exact h
  | cons m moves ih =>
    rw [List.foldlM_cons] at hq
    obtain ⟨p', hp', hq⟩ := Option.bind_eq_some_iff.1 hq
    exact ih (h.move m hp') hq

theorem Reachable.asked {p₀ p q : Pair} (h : Reachable p₀ p) {moves : List (Side × Move)}
    (hq : moves.foldlM (fun (p : Pair) m => p.move? (.onSide m.1 m.2)) p = some q) :
    Reachable p₀ q :=
  Reachable.moves h (by rwa [← List.foldlM_map] at hq)

theorem Reachable.rounds {p₀ p q : Pair} (h : Reachable p₀ p) {moves : List (List (Side × Move))}
    (hq : p.rounds moves = some q) : Reachable p₀ q := by
  induction moves generalizing p with
  | nil => cases hq; exact h
  | cons round later ih =>
    obtain ⟨r, hr, hq⟩ := Option.bind_eq_some_iff.1 hq
    exact ih ((h.asked hr).settle 80) hq

end Pair

end StreamMux
