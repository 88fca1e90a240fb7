import StreamMux.Waiting.Signal

/-! A state with a signal for the calls that wait for it to change. -/

namespace StreamMux

structure Monitor (κ σ : Type) where
  state : σ
  signal : Signal κ := {}
  deriving DecidableEq

namespace Monitor

variable {κ σ β : Type} [DecidableEq κ]

/-- A call runs undisturbed: asleep, it stays so; otherwise it looks at the state, and sleeps if that gives
it no answer. -/
def poll (k : κ) (look : σ → σ × Option β) (m : Monitor κ σ) : Monitor κ σ × Option β :=
  if k ∈ m.signal.asleep then (m, none)
  else
    let signal := m.signal.rise k
    match look m.state with
    | (state, some answer) => ({ state, signal }, some answer)
    | (state, none) => ({ state, signal := signal.sleep k }, none)

/-- A call looks at the state, and is about to sleep if that gives it no answer. -/
def glance (k : κ) (look : σ → σ × Option β) (m : Monitor κ σ) : Monitor κ σ × Option β :=
  if k ∈ m.signal.asleep then (m, none)
  else
    let signal := m.signal.rise k
    match look m.state with
    | (state, some answer) => ({ state, signal }, some answer)
    | (state, none) => ({ state, signal := signal.hesitate k }, none)

/-- A call that has looked in vain sleeps, or is to look again. -/
def settle (k : κ) (m : Monitor κ σ) : Monitor κ σ := { m with signal := m.signal.settle k }

@[simp] theorem settle_state (k : κ) (m : Monitor κ σ) : (m.settle k).state = m.state := rfl

/-- A call that runs undisturbed looks and settles. If it heard a ring that was kept it does so once more, and
then it sleeps, as a second look in vain finds what the first has left. -/
theorem poll_eq_glance_settle {k : κ} {look : σ → σ × Option β} {m : Monitor κ σ}
    (hvain : ∀ state state', look state = (state', none) → look state' = (state', none))
    (hk : k ∉ m.signal.asleep) :
    m.poll k look = ((m.glance k look).1.settle k, (m.glance k look).2) ∨
    (m.signal.kept = true ∧ (m.glance k look).2 = none ∧
      (((m.glance k look).1.settle k).glance k look).2 = none ∧
      m.poll k look = ((((m.glance k look).1.settle k).glance k look).1.settle k, none)) := by
  unfold poll
  rw [if_neg hk]
  rcases hl : look m.state with ⟨state, _ | found⟩
  · have hagain := hvain _ _ hl
    by_cases hkept : m.signal.kept = true
    · right
      simp [settle, glance, Signal.settle, Signal.hesitate, Signal.rise, Signal.sleep, hkept, hl, hagain, hk]
    · left
      simp [settle, glance, Signal.settle, Signal.hesitate, Signal.rise, Signal.sleep, hkept, hl, hk]
  · left
    simp [settle, glance, Signal.settle, Signal.rise, hl, hk]

/-- What a call is given comes from its look at the state. -/
theorem look_of_poll {k : κ} {look : σ → σ × Option β} {m m' : Monitor κ σ} {answer : β}
    (h : m.poll k look = (m', some answer)) : look m.state = (m'.state, some answer) := by
  unfold poll at h
  split at h
  · cases h
  · rcases hl : look m.state with ⟨state, _ | found⟩
    · rw [hl] at h; cases h
    · rw [hl] at h; cases h; rfl

/-- A call that is given nothing looked in vain, or did not look. -/
theorem state_of_poll_none {k : κ} {look : σ → σ × Option β} {m m' : Monitor κ σ}
    (h : m.poll k look = (m', none)) : m'.state = m.state ∨ look m.state = (m'.state, none) := by
  unfold poll at h
  split at h
  · cases h; exact .inl rfl
  · rcases hl : look m.state with ⟨state, _ | found⟩
    · rw [hl] at h; cases h; exact .inr rfl
    · rw [hl] at h; cases h

/-- Change the state and ring for one call. -/
def tellOne (state : σ) (m : Monitor κ σ) : Monitor κ σ × List κ :=
  let (signal, woken) := m.signal.ringOne
  ({ state, signal }, woken)

/-- Change the state and ring for all calls, and for one more. -/
def tellAll (state : σ) (m : Monitor κ σ) : Monitor κ σ × List κ :=
  let (signal, woken) := m.signal.ringBoth
  ({ state, signal }, woken)

/-- A call goes away. -/
def leave (k : κ) (m : Monitor κ σ) : Monitor κ σ × List κ :=
  let (signal, woken) := m.signal.leave k
  ({ m with signal }, woken)

end Monitor

end StreamMux
