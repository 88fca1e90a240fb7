import StreamMux.Proofs.Wakeups

/-! A send window with all who spend its credit. What is left and what was given out is what there was and
what was granted, as long as no grant goes past the largest credit that the window can hold. A writer is
given no more than it asked for and no more than is there, a writer that goes away takes nothing, and nobody
waits at a window that is closed or has credit: each grant rings for all, also for those between their look
and their sleep. -/

namespace StreamMux

namespace SendWindow

variable {w w' : SendWindow} {want : Nat} {answer : Option (Option Nat)}

/-- How a writer that asks for `want` bytes is served: it is given the end, or as much of the credit as it
asked for, or it waits for credit. -/
inductive Spends (w : SendWindow) (want : Nat) : Option (Option Nat) → SendWindow → Prop
  | ended (closed : w.closed = true) : Spends w want (some none) w
  | given {w' : SendWindow} (running : w.closed = false) (some_left : w.remaining ≠ 0)
      (still : w'.closed = false)
      (left : w'.remaining.toNat + min want w.remaining.toNat = w.remaining.toNat) :
      Spends w want (some (some (min want w.remaining.toNat))) w'
  | waits (running : w.closed = false) (none_left : w.remaining = 0) : Spends w want none w

theorem spends_of_acquire (h : w.acquire want = (w', answer)) : w.Spends want answer w' := by
  rcases answer with _ | _ | n
  · obtain ⟨running, none_left⟩ := of_acquire_none h
    rw [eq_of_acquire h (fun _ => by simp)]
    exact .waits running none_left
  · have hclosed : w.closed = true := by
      unfold acquire at h
      split at h
      · assumption
      · split at h <;> cases h
    rw [eq_of_acquire h (fun _ => by simp)]
    exact .ended hclosed
  · obtain ⟨running, still, left⟩ := acquire_some h
    have hn : n = min want w.remaining.toNat ∧ w.remaining ≠ 0 := by
      unfold acquire at h
      split at h
      · cases h
      · split at h
        · cases h
        · rename_i hsome
          cases h
          exact ⟨rfl, hsome⟩
    obtain ⟨rfl, hsome⟩ := hn
    exact .given running hsome still left

/-- A second look in vain finds what the first has left. -/
theorem acquire_none_again (h : w.acquire want = (w', none)) : w'.acquire want = (w', none) := by
  obtain rfl : w' = w := eq_of_acquire h (fun _ => by simp)
  exact h

end SendWindow

/-- A send window, with the credits that were granted and what the writers were answered. -/
structure Spending (κ : Type) where
  outflow : Outflow κ
  granted : List UInt32 := []
  answers : List (κ × Option Nat) := []

namespace Spending

variable {κ : Type}

def window (r : Spending κ) : SendWindow := r.outflow.state

/-- All credit that was granted. -/
def credited (r : Spending κ) : Nat := (r.granted.map UInt32.toNat).sum

/-- All credit that was given to writers. -/
def spent (r : Spending κ) : Nat := (r.answers.map fun answer => answer.2.getD 0).sum

variable [DecidableEq κ]

/-- What the users of a send window do. -/
inductive Act (κ : Type)
  | acquire (k : κ) (want : Nat)
  | look (k : κ) (want : Nat)
  | settle (k : κ)
  | grant (credit : UInt32)
  | close
  | leave (k : κ)

/-- A writer that asks for credit has run. -/
def served (k : κ) (r : Spending κ) : Outflow κ × Option (Option Nat) → Spending κ
  | (outflow, answer) => { r with outflow, answers := r.answers ++ answer.toList.map (k, ·) }

/-- A writer that asks for credit runs undisturbed. -/
def acquire (k : κ) (want : Nat) (r : Spending κ) : Spending κ := r.served k (r.outflow.acquire k want)

/-- A writer that asks for credit runs up to its sleep. -/
def look (k : κ) (want : Nat) (r : Spending κ) : Spending κ := r.served k (r.outflow.look k want)

def act (r : Spending κ) : Act κ → Spending κ
  | .acquire k want => r.acquire k want
  | .look k want => r.look k want
  | .settle k => { r with outflow := r.outflow.settle k }
  | .grant credit => { r with outflow := (r.outflow.grant credit).1, granted := r.granted ++ [credit] }
  | .close => { r with outflow := r.outflow.close.1 }
  | .leave k => { r with outflow := (r.outflow.leave k).1 }

def after (acts : List (Act κ)) (r : Spending κ) : Spending κ := acts.foldl act r

/-- A window that has given and got nothing. -/
def opened (initial : UInt32) : Spending κ := { outflow := .withCredit initial }

variable {r : Spending κ} {k : κ} {initial : UInt32}

/-- How a writer runs: it sleeps still, or it is served by the window, and pauses if it has to wait. -/
inductive Asks (r : Spending κ) (k : κ) (want : Nat) (pause : Signal κ → Signal κ) :
    Option (Option Nat) → Spending κ → Prop
  | asleep (asleep : k ∈ r.outflow.signal.asleep) : Asks r k want pause none r
  | ended (awake : k ∉ r.outflow.signal.asleep) (closed : r.window.closed = true) :
      Asks r k want pause (some none) { r with
        outflow := { r.outflow with signal := r.outflow.signal.rise k }
        answers := r.answers ++ [(k, none)] }
  | given {w : SendWindow} (awake : k ∉ r.outflow.signal.asleep) (running : r.window.closed = false)
      (some_left : r.window.remaining ≠ 0) (still : w.closed = false)
      (left : w.remaining.toNat + min want r.window.remaining.toNat = r.window.remaining.toNat) :
      Asks r k want pause (some (some (min want r.window.remaining.toNat))) { r with
        outflow := { state := w, signal := r.outflow.signal.rise k }
        answers := r.answers ++ [(k, some (min want r.window.remaining.toNat))] }
  | waits (awake : k ∉ r.outflow.signal.asleep) (running : r.window.closed = false)
      (none_left : r.window.remaining = 0) :
      Asks r k want pause none { r with
        outflow := { r.outflow with signal := pause (r.outflow.signal.rise k) } }

theorem asks_of_served {want : Nat} {pause : Signal κ → Signal κ} {outflow : Outflow κ}
    {answer : Option (Option Nat)} (h : r.outflow.Served k (SendWindow.acquire want) pause outflow answer) :
    r.Asks k want pause answer (r.served k (outflow, answer)) := by
  rcases h with ⟨hk, rfl, rfl⟩ | ⟨hk, hlook, hsignal⟩
  · simpa [served] using Asks.asleep hk
  · obtain ⟨w, signal⟩ := outflow
    have hspends := SendWindow.spends_of_acquire hlook
    dsimp only at hspends hsignal
    subst hsignal
    cases hspends with
    | ended closed => exact .ended hk closed
    | given running some_left still left => exact .given hk running some_left still left
    | waits running none_left => simpa [served] using Asks.waits hk running none_left

theorem asks (k : κ) (want : Nat) (r : Spending κ) :
    r.Asks k want (·.sleep k) (r.outflow.acquire k want).2 (r.acquire k want) :=
  asks_of_served (Monitor.served_poll rfl)

theorem looks (k : κ) (want : Nat) (r : Spending κ) :
    r.Asks k want (·.hesitate k) (r.outflow.look k want).2 (r.look k want) :=
  asks_of_served (Monitor.served_glance rfl)

/-- A writer that runs undisturbed looks and settles, and does so once more if it heard a ring that was kept. -/
theorem acquire_eq_look_settle (hk : k ∉ r.outflow.signal.asleep) (want : Nat) :
    r.acquire k want = r.after [.look k want, .settle k] ∨
    (r.outflow.signal.kept = true ∧
      r.acquire k want = r.after [.look k want, .settle k, .look k want, .settle k]) := by
  -- A look in vain changes the window alone.
  have hlook {q : Spending κ} (hvain : (q.outflow.look k want).2 = none) :
      q.look k want = { q with outflow := (q.outflow.look k want).1 } := by
    show q.served k (q.outflow.look k want) = _
    rw [← Prod.eta (q.outflow.look k want), hvain]
    simp [served]
  rcases Monitor.poll_eq_glance_settle (fun _ _ => SendWindow.acquire_none_again) hk with
    hacquire | ⟨hkept, hvain, hagain, hacquire⟩
  · left
    show r.served k (r.outflow.poll k (SendWindow.acquire want)) = _
    rw [hacquire]
    rfl
  · refine .inr ⟨hkept, ?_⟩
    show r.served k (r.outflow.poll k (SendWindow.acquire want)) = _
    rw [hacquire]
    show _ = (((r.look k want).act (.settle k)).look k want).act (.settle k)
    rw [hlook hvain, hlook]
    · simp [served, act, Outflow.look]
    · exact hagain

/-- What a writer is given. -/
theorem acquire_given {want n : Nat} (h : (r.outflow.acquire k want).2 = some (some n)) :
    n = min want r.window.remaining.toNat ∧ (0 < want → 0 < n) ∧
      (r.acquire k want).window.remaining.toNat + n = r.window.remaining.toNat := by
  have hasks := asks k want r
  rw [h] at hasks
  generalize r.acquire k want = next at hasks ⊢
  cases hasks with
  | given awake running some_left still left =>
    have hpos : r.window.remaining.toNat ≠ 0 := fun hzero => some_left (UInt32.toNat_inj.1 hzero)
    exact ⟨rfl, fun hwant => by omega, left⟩

/-- A writer that is given nothing takes nothing. -/
theorem acquire_in_vain {want : Nat} (h : (r.outflow.acquire k want).2 = none) :
    (r.acquire k want).window = r.window ∧ (r.acquire k want).answers = r.answers := by
  have hasks := asks k want r
  rw [h] at hasks
  generalize r.acquire k want = next at hasks ⊢
  cases hasks with
  | asleep | waits => exact ⟨rfl, rfl⟩

/-- A writer that is not asleep is given credit if there is some. -/
theorem acquire_of_credit (hawake : k ∉ r.outflow.signal.asleep) (running : r.window.closed = false)
    (hsome : r.window.remaining ≠ 0) (want : Nat) :
    ∃ n, (r.outflow.acquire k want).2 = some (some n) := by
  have hasks := asks k want r
  generalize (r.outflow.acquire k want).2 = answer at hasks ⊢
  generalize r.acquire k want = next at hasks
  cases hasks with
  | asleep asleep => exact absurd asleep hawake
  | ended _ closed => exact absurd (running.symm.trans closed) (by simp)
  | given => exact ⟨_, rfl⟩
  | waits _ _ none_left => exact absurd none_left hsome

/-! ### Who waits -/

/-- There is something for every writer: credit, or the end. -/
def Serves (r : Spending κ) : Prop := r.window.closed = true ∨ r.window.remaining ≠ 0

/-- Nobody sleeps while there is something for every writer. -/
def Attended (r : Spending κ) : Prop := r.outflow.signal.Attended r.Serves 0

theorem Attended.of_asks {want : Nat} {pause : Signal κ → Signal κ} {answer : Option (Option Nat)}
    {next : Spending κ} (h : r.Attended)
    (hpause : k ∉ r.outflow.signal.asleep → ¬ r.Serves →
      (pause (r.outflow.signal.rise k)).Attended r.Serves 0)
    (hasks : r.Asks k want pause answer next) : next.Attended := by
  cases hasks with
  | asleep => exact h
  | ended => exact Signal.Attended.rise h k id fun _ => Nat.le_refl _
  | given awake running some_left =>
    exact Signal.Attended.rise h k (fun _ => .inr some_left) fun _ => Nat.le_refl _
  | waits awake running none_left =>
    refine hpause awake ?_
    rintro (hclosed | hsome)
    · exact absurd (running.symm.trans hclosed) (by simp)
    · exact hsome none_left

theorem Attended.act (h : r.Attended) (a : Act κ) : (r.act a).Attended := by
  cases a with
  | acquire k want =>
    exact h.of_asks (fun awake hunserved => Signal.Attended.sleep h awake hunserved rfl) (asks k want r)
  | look k want =>
    exact h.of_asks (fun awake hunserved => Signal.Attended.hesitate h awake hunserved rfl) (looks k want r)
  | settle k => exact Signal.Attended.settle h k
  | grant credit => exact Signal.Attended.ringBoth h _ _
  | close => exact Signal.Attended.ringBoth h _ _
  | leave k => exact Signal.Attended.leave h k (Nat.le_refl 0) fun _ _ => Nat.le_refl 0

theorem Attended.after (h : r.Attended) (acts : List (Act κ)) : (r.after acts).Attended := by
  induction acts generalizing r with
  | nil => exact h
  | cons a acts ih => exact ih (h.act a)

/-- At a closed window every writer is given the end. -/
theorem acquire_of_closed (h : r.Attended) (hclosed : r.window.closed = true) (k : κ) (want : Nat) :
    (r.outflow.acquire k want).2 = some none ∧ (r.acquire k want).window = r.window := by
  have hnobody : r.outflow.signal.asleep = [] := by
    by_contra hsome
    exact h.unripe (.inl hsome) (.inl hclosed)
  have hasks := asks k want r
  generalize (r.outflow.acquire k want).2 = answer at hasks ⊢
  generalize r.acquire k want = next at hasks ⊢
  cases hasks with
  | asleep asleep =>
    rw [hnobody] at asleep
    cases asleep
  | ended => exact ⟨rfl, rfl⟩
  | given _ running | waits _ running => exact absurd (running.symm.trans hclosed) (by simp)

/-- A closed window stays closed. -/
theorem Asks.closed_eq {want : Nat} {pause : Signal κ → Signal κ} {answer : Option (Option Nat)}
    {next : Spending κ} (hasks : r.Asks k want pause answer next) : next.window.closed = r.window.closed := by
  cases hasks with
  | asleep | ended | waits => rfl
  | given _ running _ still => exact still.trans running.symm

theorem closed_act (hclosed : r.window.closed = true) (a : Act κ) : (r.act a).window.closed = true := by
  cases a with
  | acquire k want => exact (asks k want r).closed_eq.trans hclosed
  | look k want => exact (looks k want r).closed_eq.trans hclosed
  | grant credit | settle k | leave k => exact hclosed
  | close => rfl

theorem closed_after (hclosed : r.window.closed = true) (more : List (Act κ)) :
    (r.after more).window.closed = true := by
  induction more generalizing r with
  | nil => exact hclosed
  | cons a more ih => exact ih (closed_act hclosed a)

/-! ### The account -/

/-- The grant does not go past the largest credit. -/
def Fits (r : Spending κ) : Act κ → Prop
  | .grant credit => r.window.remaining.toNat + credit.toNat ≤ 4294967295
  | _ => True

/-- No grant of the run goes past the largest credit. -/
def AllFit (r : Spending κ) : List (Act κ) → Prop
  | [] => True
  | a :: acts => r.Fits a ∧ (r.act a).AllFit acts

/-- What a writer is given comes out of the window. -/
theorem Asks.balance {want : Nat} {pause : Signal κ → Signal κ} {answer : Option (Option Nat)}
    {next : Spending κ} (hasks : r.Asks k want pause answer next) :
    next.window.remaining.toNat + next.spent + r.credited =
      r.window.remaining.toNat + r.spent + next.credited := by
  cases hasks with
  | asleep => rfl
  | ended | waits => simp [window, spent, credited]
  | given awake running some_left still left =>
    simp only [window, spent, credited, List.map_append, List.map_cons, List.map_nil, List.sum_append,
      List.sum_cons, List.sum_nil, Option.getD_some] at left ⊢
    omega

/-- Credit comes from grants only, and is lost only in a grant that goes past the largest credit. -/
theorem balance_act (r : Spending κ) (a : Act κ) :
    (r.act a).window.remaining.toNat + (r.act a).spent + r.credited ≤
      r.window.remaining.toNat + r.spent + (r.act a).credited ∧
    (r.Fits a → (r.act a).window.remaining.toNat + (r.act a).spent + r.credited =
      r.window.remaining.toNat + r.spent + (r.act a).credited) := by
  cases a with
  | acquire k want => exact ⟨Nat.le_of_eq (asks k want r).balance, fun _ => (asks k want r).balance⟩
  | look k want => exact ⟨Nat.le_of_eq (looks k want r).balance, fun _ => (looks k want r).balance⟩
  | grant credit =>
    have hgrant : (r.act (.grant credit)).window.remaining.toNat =
        min (r.window.remaining.toNat + credit.toNat) 4294967295 := SendWindow.grant_toNat credit r.window
    have hspent : (r.act (.grant credit)).spent = r.spent := rfl
    have hcredited : (r.act (.grant credit)).credited = r.credited + credit.toNat := by
      simp [act, credited]
    rw [hgrant, hspent, hcredited]
    constructor
    · omega
    · intro hfits
      have hfits : r.window.remaining.toNat + credit.toNat ≤ 4294967295 := hfits
      omega
  | settle k | close | leave k => exact ⟨Nat.le_refl _, fun _ => rfl⟩

theorem balance_after (r : Spending κ) (acts : List (Act κ)) :
    (r.after acts).window.remaining.toNat + (r.after acts).spent + r.credited ≤
      r.window.remaining.toNat + r.spent + (r.after acts).credited ∧
    (r.AllFit acts → (r.after acts).window.remaining.toNat + (r.after acts).spent + r.credited =
      r.window.remaining.toNat + r.spent + (r.after acts).credited) := by
  induction acts generalizing r with
  | nil => exact ⟨Nat.le_refl _, fun _ => rfl⟩
  | cons a acts ih =>
    obtain ⟨hle, heq⟩ := balance_act r a
    obtain ⟨ihle, iheq⟩ := ih (r.act a)
    show ((r.act a).after acts).window.remaining.toNat + ((r.act a).after acts).spent + _ ≤ _ ∧
      (_ → ((r.act a).after acts).window.remaining.toNat + ((r.act a).after acts).spent + _ = _)
    constructor
    · have hgoal : (r.after (a :: acts)).credited = ((r.act a).after acts).credited := rfl
      rw [hgoal]
      omega
    · intro hfit
      have hgoal : (r.after (a :: acts)).credited = ((r.act a).after acts).credited := rfl
      have := heq hfit.1
      have := iheq hfit.2
      rw [hgoal]
      omega

/-- Whatever the users of a send window do and in whatever order, the credit that is left and what was given
out are never more than there was at first and was granted, and just as much if no grant went past the
largest credit. A writer is given what it asked for or what is there, whichever is less, and at least one
byte if it asked for one; the window has just that much less. A writer that goes away, or runs in vain,
takes nothing. A grant and the close wake every writer; from the close on each is given the end. A writer
that is not asleep is given credit if there is any, and one that sleeps does so at an open window without
credit. -/
theorem credit_is_spent_once {acts : List (Act κ)} (hr : (opened initial).after acts = r) :
    (r.window.remaining.toNat + r.spent ≤ initial.toNat + r.credited ∧
      ((opened initial : Spending κ).AllFit acts →
        r.window.remaining.toNat + r.spent = initial.toNat + r.credited)) ∧
    (∀ k want n, (r.outflow.acquire k want).2 = some (some n) →
      n = min want r.window.remaining.toNat ∧ (0 < want → 0 < n) ∧
      (r.act (.acquire k want)).window.remaining.toNat + n = r.window.remaining.toNat) ∧
    ((∀ k want, (r.outflow.acquire k want).2 = none → (r.act (.acquire k want)).window = r.window ∧
        (r.act (.acquire k want)).answers = r.answers) ∧
      ∀ k, (r.act (.leave k)).window = r.window ∧ (r.act (.leave k)).answers = r.answers) ∧
    (∀ k ∈ r.outflow.signal.asleep, k ∈ r.outflow.close.2 ∧ ∀ credit, k ∈ (r.outflow.grant credit).2) ∧
    (r.act .close).window.closed = true ∧
    (r.window.closed = true → ∀ more, (r.after more).window.closed = true ∧
      ∀ k want, ((r.after more).outflow.acquire k want).2 = some none) ∧
    (∀ k want, k ∉ r.outflow.signal.asleep → r.window.closed = false → r.window.remaining ≠ 0 →
      ∃ n, (r.outflow.acquire k want).2 = some (some n)) ∧
    (r.outflow.signal.asleep ≠ [] → r.window.remaining = 0 ∧ r.window.closed = false) := by
  have hopened : (opened initial : Spending κ).Attended := .empty ..
  have h : r.Attended := hr ▸ hopened.after acts
  have hbalance := balance_after (opened initial : Spending κ) acts
  rw [hr] at hbalance
  refine ⟨hbalance, fun k want n => acquire_given, ⟨fun k want => acquire_in_vain, fun k => ⟨rfl, rfl⟩⟩,
    fun k hk => ⟨Signal.mem_ringBoth hk, fun _ => Signal.mem_ringBoth hk⟩, rfl,
    fun hclosed more => ⟨closed_after hclosed more, fun k want => ?_⟩,
    fun k want hawake running hsome => acquire_of_credit hawake running hsome want, fun hasleep => ?_⟩
  · exact (acquire_of_closed (h.after more) (closed_after hclosed more) k want).1
  · have hunserved := h.unripe (.inl hasleep)
    unfold Serves at hunserved
    rw [not_or, not_not] at hunserved
    exact ⟨hunserved.2, by simpa using hunserved.1⟩

/-- The first credit goes to one writer, and two wait; a grant wakes both. A new writer takes a part before
they run, the first takes its part, and the second goes away. -/
def overtakenWriters : List (Act Nat) :=
  [.acquire 0 10, .acquire 1 3, .acquire 2 5, .grant 6, .acquire 3 2, .acquire 1 3, .leave 2]

/-- One byte of credit is left, and who asks for some then is given it. -/
theorem overtaken_writers_leave_credit :
    ((opened 4).after overtakenWriters).answers = [(0, some 4), (3, some 2), (1, some 3)] ∧
    ((opened 4).after overtakenWriters).window.remaining.toNat + 9 = 4 + 6 ∧
    ∃ n, (((opened 4).after overtakenWriters).outflow.acquire 4 8).2 = some (some n) := by
  have hfit : (opened 4 : Spending Nat).AllFit overtakenWriters :=
    ⟨trivial, trivial, trivial, show 0 + 6 ≤ 4294967295 by decide, trivial, trivial, trivial, trivial⟩
  obtain ⟨⟨-, hbalance⟩, -, -, -, -, -, hserved, -⟩ :=
    credit_is_spent_once (r := (opened 4).after overtakenWriters) rfl
  exact ⟨by decide, hbalance hfit, hserved 4 8 (by decide) (by decide) (by decide)⟩

end Spending

end StreamMux
