import StreamMux.Proofs.Traffic
import StreamMux.Proofs.Wakeups

/-! A queue with all who use it. What is taken from a lane is, in order, what was put into it, and the
normal lane is touched only while the priority lane is empty. A stopped queue takes nothing, gives those
who wait nothing, and hands out what it holds to those who do not wait. While a call sleeps, each item in the
queue has a call of its own that was woken for it, but for rings that were lost: a call that waits looks at
the queue and then goes to sleep, and while two calls stand between the two a second ring finds nobody who
hears it. -/

namespace StreamMux

namespace Lanes

variable {α : Type} {l l' : Lanes α} {x : α}

/-- The items that were taken on the way from `l` to `l'`, with their lanes: of as many as the priority lane
lost, the first come from there, and the others from the normal lane. -/
def fromLanes (l l' : Lanes α) (xs : List α) : List (Lane × α) :=
  let lost := l.priority.length - l'.priority.length
  (xs.take lost).map (.priority, ·) ++ (xs.drop lost).map (.normal, ·)

theorem items_fromLanes (l l' : Lanes α) (xs : List α) : (l.fromLanes l' xs).map (·.2) = xs := by
  simp only [fromLanes, List.map_append, List.map_map]
  exact (congrArg₂ (· ++ ·) (List.map_id _) (List.map_id _)).trans (List.take_append_drop ..)

@[simp] theorem fromLanes_nil (l l' : Lanes α) : l.fromLanes l' [] = [] := by
  simp [fromLanes]

/-- One item comes from the priority lane, or from the normal one if the other is empty. -/
theorem fromLanes_of_take (h : l.take = (l', some x)) :
    (l.fromLanes l' [x] = [(.priority, x)] ∧ l.priority = x :: l'.priority ∧ l'.normal = l.normal) ∨
      (l.fromLanes l' [x] = [(.normal, x)] ∧ l.priority = [] ∧ l'.priority = [] ∧
        l.normal = x :: l'.normal) := by
  rcases lane_take h with ⟨hp, hn⟩ | ⟨hp, hp', hn⟩
  · exact .inl ⟨by simp [fromLanes, hp], hp, hn⟩
  · exact .inr ⟨by simp [fromLanes, hp], hp, hp', hn⟩

theorem fromLanes_drain (l : Lanes α) :
    l.fromLanes l.drain.1 l.drain.2 = l.priority.map (.priority, ·) ++ l.normal.map (.normal, ·) := by
  simp [fromLanes, drain, toList]

/-- A look in vain is one at a queue that is not stopped and holds nothing. -/
theorem of_pop_none (h : l.pop = (l', none)) : l' = l ∧ l.stopped = false ∧ l.toList = [] := by
  have hsame := eq_of_pop h (fun _ => by simp)
  unfold pop at h
  split at h
  · cases h
  · rename_i hrunning
    rcases ht : l.take with ⟨rest, _ | x⟩
    · exact ⟨hsame, by simpa using hrunning, (take_eq_none_iff l).1 (by rw [ht])⟩
    · rw [ht] at h
      cases h

/-- A second look in vain finds what the first has left. -/
theorem pop_none_again (h : l.pop = (l', none)) : l'.pop = (l', none) := by
  obtain ⟨rfl, -, -⟩ := of_pop_none h
  exact h

/-- What is taken without waiting is the next item. -/
theorem head?_of_take (l : Lanes α) : l.take.2 = l.toList.head? := by
  rcases ht : l.take with ⟨l', _ | x⟩
  · have hnone := (take_eq_none_iff l).1 (by rw [ht])
    rw [hnone]
    rfl
  · rw [toList_of_take ht]
    rfl

theorem size_eq (l : Lanes α) : l.size = l.toList.length := by
  simp [size, toList]

theorem size_push {lane : Lane} (h : l.push lane x = some l') : l'.size = l.size + 1 := by
  have hp := congrArg List.length (lane_push h .priority)
  have hn := congrArg List.length (lane_push h .normal)
  cases lane <;> simp [Lanes.lane] at hp hn <;> simp only [size] <;> omega

theorem size_take (h : l.take = (l', some x)) : l.size = l'.size + 1 := by
  rw [size_eq, size_eq, toList_of_take h, List.length_cons]

end Lanes

/-- A queue, with the items that were put into its lanes, those that were taken out of them, those that were
handed back, and what the waiting calls were answered. -/
structure Handover (κ α : Type) where
  queue : Queue κ α := .empty
  accepted : List (Lane × α) := []
  taken : List (Lane × α) := []
  returned : List α := []
  answers : List (κ × Option α) := []

namespace Handover

variable {κ α : Type}

/-- The items of one lane. -/
def ofLane (lane : Lane) (items : List (Lane × α)) : List α := (items.filter (·.1 = lane)).map (·.2)

@[simp] theorem ofLane_append (lane : Lane) (items more : List (Lane × α)) :
    ofLane lane (items ++ more) = ofLane lane items ++ ofLane lane more := by
  simp [ofLane]

variable [DecidableEq κ]

/-- What the users of a queue do. -/
inductive Act (κ α : Type)
  | push (lane : Lane) (x : α)
  | pop (k : κ)
  | look (k : κ)
  | settle (k : κ)
  | tryPop
  | drain
  | stop
  | leave (k : κ)

/-- Put an item into a lane, or get it back. -/
def push (lane : Lane) (x : α) (r : Handover κ α) : Handover κ α :=
  match r.queue.push lane x with
  | some (queue, _) => { r with queue, accepted := r.accepted ++ [(lane, x)] }
  | none => { r with returned := r.returned ++ [x] }

/-- A call that waits for an item has run. -/
def served (k : κ) (r : Handover κ α) : Queue κ α × Option (Option α) → Handover κ α
  | (queue, some answer) =>
    { r with
      queue
      taken := r.taken ++ r.queue.state.fromLanes queue.state answer.toList
      answers := r.answers ++ [(k, answer)] }
  | (queue, none) => { r with queue }

/-- A call that waits for an item runs undisturbed. -/
def pop (k : κ) (r : Handover κ α) : Handover κ α := r.served k (r.queue.pop k)

/-- A call that waits for an item runs up to its sleep. -/
def look (k : κ) (r : Handover κ α) : Handover κ α := r.served k (r.queue.look k)

def tryPop (r : Handover κ α) : Handover κ α :=
  let (queue, x) := r.queue.tryPop
  { r with queue, taken := r.taken ++ r.queue.state.fromLanes queue.state x.toList }

def drain (r : Handover κ α) : Handover κ α :=
  let (queue, xs) := r.queue.drain
  { r with queue, taken := r.taken ++ r.queue.state.fromLanes queue.state xs }

def act (r : Handover κ α) : Act κ α → Handover κ α
  | .push lane x => r.push lane x
  | .pop k => r.pop k
  | .look k => r.look k
  | .settle k => { r with queue := r.queue.settle k }
  | .tryPop => r.tryPop
  | .drain => r.drain
  | .stop => { r with queue := r.queue.stop.1 }
  | .leave k => { r with queue := (r.queue.leave k).1 }

def after (acts : List (Act κ α)) (r : Handover κ α) : Handover κ α := acts.foldl act r

variable {r : Handover κ α} {k : κ}

/-! ### What an operation does -/

omit [DecidableEq κ] in
/-- A stopped queue hands an item back and stays as it is, any other takes it and wakes a call. -/
theorem push_cases (lane : Lane) (x : α) (r : Handover κ α) :
    (r.queue.state.stopped = true ∧ r.push lane x = { r with returned := r.returned ++ [x] }) ∨
    (r.queue.state.stopped = false ∧ ∃ lanes, r.queue.state.push lane x = some lanes ∧
      lanes.stopped = false ∧ r.push lane x = { r with
        queue := { state := lanes, signal := r.queue.signal.ringOne.1 }
        accepted := r.accepted ++ [(lane, x)] }) := by
  by_cases hstopped : r.queue.state.stopped = true
  · have hpush : r.queue.state.push lane x = none := if_pos hstopped
    exact .inl ⟨hstopped, by simp [push, Queue.push, hpush]⟩
  · have hrunning : r.queue.state.stopped = false := by simpa using hstopped
    obtain ⟨lanes, hpush, hlanes⟩ : ∃ lanes, r.queue.state.push lane x = some lanes ∧
        lanes.stopped = false := by
      unfold Lanes.push
      rw [if_neg hstopped]
      cases lane <;> exact ⟨_, rfl, hrunning⟩
    exact .inr ⟨hrunning, lanes, hpush, hlanes, by simp [push, Queue.push, hpush, Monitor.tellOne]⟩

/-- How a call that waits for an item runs: it sleeps still, it is given the end or the next item, or it finds
nothing and pauses. -/
inductive Pops (r : Handover κ α) (k : κ) (pause : Signal κ → Signal κ) : Handover κ α → Prop
  | asleep (asleep : k ∈ r.queue.signal.asleep) : Pops r k pause r
  | ended (awake : k ∉ r.queue.signal.asleep) (stopped : r.queue.state.stopped = true) :
      Pops r k pause { r with
        queue := { r.queue with signal := r.queue.signal.rise k }
        answers := r.answers ++ [(k, none)] }
  | given {lanes : Lanes α} {x : α} (awake : k ∉ r.queue.signal.asleep)
      (running : r.queue.state.stopped = false) (take : r.queue.state.take = (lanes, some x)) :
      Pops r k pause { r with
        queue := { state := lanes, signal := r.queue.signal.rise k }
        taken := r.taken ++ r.queue.state.fromLanes lanes [x]
        answers := r.answers ++ [(k, some x)] }
  | waits (awake : k ∉ r.queue.signal.asleep) (running : r.queue.state.stopped = false)
      (none : r.queue.state.toList = []) :
      Pops r k pause { r with queue := { r.queue with signal := pause (r.queue.signal.rise k) } }

theorem pops_of_served {pause : Signal κ → Signal κ} {queue : Queue κ α} {answer : Option (Option α)}
    (h : r.queue.Served k Lanes.pop pause queue answer) : r.Pops k pause (r.served k (queue, answer)) := by
  rcases h with ⟨hk, rfl, rfl⟩ | ⟨hk, hlook, hsignal⟩
  · exact .asleep hk
  · obtain ⟨lanes, signal⟩ := queue
    dsimp only at hlook hsignal
    subst hsignal
    rcases answer with _ | _ | x
    · obtain ⟨rfl, hrunning, hnone⟩ := Lanes.of_pop_none hlook
      exact .waits hk hrunning hnone
    · obtain rfl : lanes = r.queue.state := Lanes.eq_of_pop hlook (fun _ => by simp)
      simpa [served] using Pops.ended hk (Lanes.stopped_of_pop hlook)
    · obtain ⟨hrunning, htake⟩ := Lanes.take_of_pop hlook
      exact .given hk hrunning htake

theorem pops (k : κ) (r : Handover κ α) : r.Pops k (·.sleep k) (r.pop k) :=
  pops_of_served (Monitor.served_poll rfl)

theorem looks (k : κ) (r : Handover κ α) : r.Pops k (·.hesitate k) (r.look k) :=
  pops_of_served (Monitor.served_glance rfl)

/-- A call that runs undisturbed looks and settles, and does so once more if it heard a ring that was kept. -/
theorem pop_eq_look_settle (hk : k ∉ r.queue.signal.asleep) :
    r.pop k = r.after [.look k, .settle k] ∨
    (r.queue.signal.kept = true ∧ r.pop k = r.after [.look k, .settle k, .look k, .settle k]) := by
  -- A look in vain changes the queue alone.
  have hlook {q : Handover κ α} (hvain : (q.queue.glance k Lanes.pop).2 = none) :
      q.look k = { q with queue := (q.queue.glance k Lanes.pop).1 } := by
    show q.served k (q.queue.glance k Lanes.pop) = _
    rw [← Prod.eta (q.queue.glance k Lanes.pop), hvain]
    rfl
  rcases Monitor.poll_eq_glance_settle (fun _ _ => Lanes.pop_none_again) hk with
    hpop | ⟨hkept, hvain, hagain, hpop⟩
  · left
    show r.served k (r.queue.poll k Lanes.pop) = _
    rw [hpop]
    show _ = (r.served k (r.queue.glance k Lanes.pop)).act (.settle k)
    rcases r.queue.glance k Lanes.pop with ⟨queue, _ | answer⟩ <;> rfl
  · refine .inr ⟨hkept, ?_⟩
    show r.served k (r.queue.poll k Lanes.pop) = _
    rw [hpop]
    show _ = (((r.look k).act (.settle k)).look k).act (.settle k)
    rw [hlook hvain, hlook hagain]
    rfl

omit [DecidableEq κ] in
/-- A call that does not wait takes the next item, if there is one. -/
theorem tryPop_cases (r : Handover κ α) :
    (r.queue.state.toList = [] ∧ r.tryPop = r) ∨
    ∃ lanes x, r.queue.state.take = (lanes, some x) ∧ r.tryPop = { r with
      queue := { r.queue with state := lanes }
      taken := r.taken ++ r.queue.state.fromLanes lanes [x] } := by
  rcases ht : r.queue.state.take with ⟨lanes, _ | x⟩
  · have hnone := (Lanes.take_eq_none_iff r.queue.state).1 (by rw [ht])
    have hsame : lanes = r.queue.state := by
      unfold Lanes.take at ht
      split at ht <;> cases ht
      rfl
    subst hsame
    exact .inl ⟨hnone, by simp [tryPop, Queue.tryPop, ht]⟩
  · exact .inr ⟨lanes, x, rfl, by simp [tryPop, Queue.tryPop, ht]⟩

/-! ### What every run keeps -/

/-- A ring is lost by an act: an item comes, or a call goes away that was woken for one, and nobody hears the
ring. -/
def Misses (r : Handover κ α) : Act κ α → Prop
  | .push .. => r.queue.state.stopped = false ∧ r.queue.signal.Deaf
  | .leave k => (k, Ring.one) ∈ r.queue.signal.woken ∧ r.queue.signal.Deaf
  | _ => False

instance (r : Handover κ α) : (a : Act κ α) → Decidable (r.Misses a)
  | .push .. | .leave _ => inferInstanceAs (Decidable (_ ∧ _))
  | .pop _ | .look _ | .settle _ | .tryPop | .drain | .stop => inferInstanceAs (Decidable False)

/-- How many rings are lost in a run, if `n` were before, since nobody slept or was about to. -/
def missed (n : Nat) (r : Handover κ α) (acts : List (Act κ α)) : Nat :=
  Signal.tally act (·.queue.signal.Idle) Misses n r acts

/-- Nothing is lost in a lane or changes its place, and each item but `n` has a call that was woken for it
while another one sleeps. -/
structure Sound (n : Nat) (r : Handover κ α) : Prop where
  lanes : ∀ lane, ofLane lane r.taken ++ r.queue.state.lane lane = ofLane lane r.accepted
  attended : r.queue.signal.Attended (r.queue.state.stopped = true) (r.queue.state.size - n)

variable {n m : Nat}

omit [DecidableEq κ] in
theorem sound_empty : ({} : Handover κ α).Sound 0 where
  lanes lane := by cases lane <;> rfl
  attended := .empty ..

omit [DecidableEq κ] in
/-- What is taken leaves the front of its lane. -/
theorem Sound.lanes_take (h : r.Sound n) {lanes : Lanes α} {x : α} (ht : r.queue.state.take = (lanes, some x))
    (lane : Lane) :
    ofLane lane (r.taken ++ r.queue.state.fromLanes lanes [x]) ++ lanes.lane lane =
      ofLane lane r.accepted := by
  rw [← h.lanes lane]
  rcases Lanes.fromLanes_of_take ht with ⟨hfrom, hp, hn⟩ | ⟨hfrom, hp, hp', hn⟩
  · rw [hfrom]
    cases lane <;> simp [ofLane, Lanes.lane, hp, hn]
  · rw [hfrom]
    cases lane <;> simp [ofLane, Lanes.lane, hp, hp', hn]

omit [DecidableEq κ] in
theorem Sound.mono (h : r.Sound n) (hle : n ≤ m) : r.Sound m :=
  ⟨h.lanes, h.attended.quiet id fun _ => by omega⟩

/-- A call that waits for an item keeps the queue in order if it pauses at an empty one as it should. -/
theorem Sound.of_pops {pause : Signal κ → Signal κ} {next : Handover κ α} (h : r.Sound n)
    (hpause : k ∉ r.queue.signal.asleep → r.queue.state.stopped = false → r.queue.state.size = 0 →
      (pause (r.queue.signal.rise k)).Attended (r.queue.state.stopped = true) (r.queue.state.size - n))
    (hpops : r.Pops k pause next) : next.Sound n := by
  cases hpops with
  | asleep => exact h
  | ended awake stopped =>
    refine ⟨h.lanes, h.attended.rise k id ?_⟩
    intro hrunning
    exact absurd stopped hrunning
  | given awake running take =>
    refine ⟨h.lanes_take take, h.attended.rise k ?_ ?_⟩
    · intro hstopped
      exact (Lanes.stopped_of_take take) ▸ hstopped
    · intro _
      have := Lanes.size_take take
      dsimp only
      omega
  | waits awake running none =>
    exact ⟨h.lanes, hpause awake running (by rw [Lanes.size_eq, none, List.length_nil])⟩

theorem Sound.pop (h : r.Sound n) (k : κ) : (r.pop k).Sound n := by
  refine h.of_pops (fun awake running hsize => ?_) (pops k r)
  exact h.attended.sleep awake (by simp [running]) (by omega)

theorem Sound.look (h : r.Sound n) (k : κ) : (r.look k).Sound n := by
  refine h.of_pops (fun awake running hsize => ?_) (looks k r)
  exact h.attended.hesitate awake (by simp [running]) (by omega)

omit [DecidableEq κ] in
theorem Sound.push (h : r.Sound n) (lane : Lane) (x : α) (hle : n ≤ m)
    (hmisses : r.Misses (.push lane x) → n < m) : (r.push lane x).Sound m := by
  rcases push_cases lane x r with ⟨hstopped, hpush⟩ | ⟨hrunning, lanes, hlanes, running, hpush⟩
  · rw [hpush]
    exact ⟨h.lanes, (h.mono hle).attended⟩
  · have hsize := Lanes.size_push hlanes
    rw [hpush]
    refine ⟨fun other => ?_, h.attended.ringOne ?_ ?_ fun hdeaf => ?_⟩
    · rw [Lanes.lane_push hlanes, ← List.append_assoc, h.lanes, ofLane_append]
      by_cases hl : lane = other <;> simp [ofLane, hl]
    · intro hstopped
      exact absurd hstopped (by simp [running])
    · dsimp only
      omega
    · have := hmisses ⟨hrunning, hdeaf⟩
      dsimp only
      omega

theorem Sound.leave (h : r.Sound n) (k : κ) (hle : n ≤ m) (hmisses : r.Misses (.leave k) → n < m) :
    (r.act (.leave k)).Sound m := by
  refine ⟨h.lanes, h.attended.leave k (Nat.sub_le_sub_left hle _) fun hdeaf hwoken => ?_⟩
  have := hmisses ⟨hwoken, hdeaf⟩
  show r.queue.state.size - _ ≤ _
  omega

omit [DecidableEq κ] in
theorem Sound.tryPop (h : r.Sound n) : r.tryPop.Sound n := by
  rcases r.tryPop_cases with ⟨-, htry⟩ | ⟨lanes, x, take, htry⟩
  · rw [htry]
    exact h
  · rw [htry]
    refine ⟨h.lanes_take take, h.attended.quiet ?_ ?_⟩
    · intro hstopped
      exact (Lanes.stopped_of_take take) ▸ hstopped
    · intro _
      have := Lanes.size_take take
      dsimp only
      omega

omit [DecidableEq κ] in
theorem Sound.drain (h : r.Sound n) : r.drain.Sound n := by
  refine ⟨fun lane => ?_, h.attended.quiet id fun _ => ?_⟩
  · show ofLane lane (r.taken ++ r.queue.state.fromLanes r.queue.state.drain.1 r.queue.state.drain.2) ++
      r.queue.state.drain.1.lane lane = ofLane lane r.accepted
    rw [Lanes.fromLanes_drain, ← h.lanes lane]
    cases lane <;> simp [ofLane, Lanes.lane, Lanes.drain, List.filter_map, Function.comp_def]
  · show 0 - _ ≤ _
    omega

theorem Sound.act {a : Act κ α} (h : r.Sound n) (hle : n ≤ m) (hmisses : r.Misses a → n < m) :
    (r.act a).Sound m := by
  cases a with
  | push lane x => exact h.push lane x hle hmisses
  | pop k => exact (h.pop k).mono hle
  | look k => exact (h.look k).mono hle
  | settle k =>
    have hsettled : (r.act (.settle k)).Sound n := ⟨h.lanes, h.attended.settle k⟩
    exact hsettled.mono hle
  | tryPop => exact h.tryPop.mono hle
  | drain => exact h.drain.mono hle
  | stop => exact ⟨fun lane => by cases lane <;> exact h.lanes _, h.attended.ringBoth _ _⟩
  | leave k => exact h.leave k hle hmisses

theorem Sound.after (h : r.Sound n) (acts : List (Act κ α)) : (r.after acts).Sound (r.missed n acts) := by
  refine Signal.tally_keeps (P := Sound) Sound.act (fun h hidle => ?_) h acts
  exact ⟨h.lanes, .of_idle h.attended.apart hidle _ _⟩

/-! ### The order of the lanes -/

/-- An item of the normal lane is taken only while the priority lane is empty. -/
theorem priority_of_taken_normal {a : Act κ α} {x : α} (h : (r.act a).taken = r.taken ++ [(.normal, x)]) :
    r.queue.state.priority = [] := by
  have hnothing (hsame : (r.act a).taken = r.taken) : r.queue.state.priority = [] := by
    rw [hsame] at h
    simp at h
  have htake {lanes : Lanes α} {y : α} (ht : r.queue.state.take = (lanes, some y))
      (htaken : (r.act a).taken = r.taken ++ r.queue.state.fromLanes lanes [y]) :
      r.queue.state.priority = [] := by
    rcases Lanes.fromLanes_of_take ht with ⟨hfrom, -⟩ | ⟨-, hp, -⟩
    · rw [htaken, hfrom] at h
      simp at h
    · exact hp
  have hpops {k : κ} {pause : Signal κ → Signal κ} {next : Handover κ α} (hpops : r.Pops k pause next)
      (hnext : r.act a = next) : r.queue.state.priority = [] := by
    cases hpops with
    | asleep | ended | waits => exact hnothing (by rw [hnext])
    | given _ _ take => exact htake take (by rw [hnext])
  cases a with
  | push lane y =>
    apply hnothing
    show (r.push lane y).taken = r.taken
    rcases push_cases lane y r with ⟨-, hpush⟩ | ⟨-, lanes, -, -, hpush⟩ <;> rw [hpush]
  | pop k => exact hpops (pops k r) rfl
  | look k => exact hpops (looks k r) rfl
  | settle k => exact hnothing rfl
  | tryPop =>
    rcases r.tryPop_cases with ⟨-, htry⟩ | ⟨lanes, y, take, htry⟩
    · exact hnothing (congrArg taken htry)
    · exact htake take (congrArg taken htry)
  | drain =>
    have htaken : (r.act .drain).taken =
        r.taken ++ (r.queue.state.priority.map (.priority, ·) ++ r.queue.state.normal.map (.normal, ·)) := by
      rw [← Lanes.fromLanes_drain]
      rfl
    rw [htaken, List.append_cancel_left_eq] at h
    cases hp : r.queue.state.priority with
    | nil => rfl
    | cons y rest =>
      rw [hp] at h
      simp at h
  | stop => exact hnothing rfl
  | leave k => exact hnothing rfl

/-- A call that is not asleep is given the next item of a queue that holds one. -/
theorem pop_of_items (hawake : k ∉ r.queue.signal.asleep) (hrunning : r.queue.state.stopped = false)
    (hitems : r.queue.state.toList ≠ []) : ∃ x, r.queue.state.toList = x :: (r.pop k).queue.state.toList ∧
      (r.pop k).answers = r.answers ++ [(k, some x)] := by
  have hpops := pops k r
  generalize r.pop k = next at hpops ⊢
  cases hpops with
  | asleep asleep => exact absurd asleep hawake
  | ended _ stopped => exact absurd (hrunning.symm.trans stopped) (by simp)
  | given _ _ take => exact ⟨_, Lanes.toList_of_take take, rfl⟩
  | waits _ _ none => exact absurd none hitems

/-! ### After the stop -/

/-- Who waits for an item of a stopped queue is given the end, and the queue holds what it held. -/
theorem Pops.of_stopped {pause : Signal κ → Signal κ} {next : Handover κ α} (hpops : r.Pops k pause next)
    (h : r.Sound n) (hstopped : r.queue.state.stopped = true) : next = { r with
      queue := { r.queue with signal := r.queue.signal.rise k }
      answers := r.answers ++ [(k, none)] } := by
  have hnobody : r.queue.signal.asleep = [] := by
    by_contra hsome
    exact h.attended.unripe (.inl hsome) hstopped
  cases hpops with
  | asleep asleep =>
    rw [hnobody] at asleep
    cases asleep
  | ended => rfl
  | given _ running => exact absurd (running.symm.trans hstopped) (by simp)
  | waits _ running => exact absurd (running.symm.trans hstopped) (by simp)

/-- From `r` to `r'` a stopped queue takes nothing, and what it held was handed out in order or is held
still. -/
structure RunsDry (r r' : Handover κ α) : Prop where
  stopped : r'.queue.state.stopped = true
  accepted : r'.accepted = r.accepted
  taken : ∃ late, r'.taken = r.taken ++ late ∧
    late.map (·.2) ++ r'.queue.state.toList = r.queue.state.toList

omit [DecidableEq κ] in
theorem RunsDry.same {r' : Handover κ α} (hstopped : r'.queue.state.stopped = true)
    (haccepted : r'.accepted = r.accepted) (htaken : r'.taken = r.taken)
    (hlist : r'.queue.state.toList = r.queue.state.toList) : r.RunsDry r' :=
  ⟨hstopped, haccepted, [], by rw [htaken, List.append_nil], hlist⟩

omit [DecidableEq κ] in
theorem RunsDry.trans {r' r'' : Handover κ α} (h : r.RunsDry r') (h' : r'.RunsDry r'') : r.RunsDry r'' := by
  obtain ⟨late, htaken, hlist⟩ := h.taken
  obtain ⟨later, htaken', hlist'⟩ := h'.taken
  refine ⟨h'.stopped, h'.accepted.trans h.accepted, late ++ later, ?_, ?_⟩
  · rw [htaken', htaken, List.append_assoc]
  · rw [List.map_append, List.append_assoc, hlist', hlist]

theorem Sound.runsDry_act (h : r.Sound n) (hstopped : r.queue.state.stopped = true) (a : Act κ α) :
    r.RunsDry (r.act a) := by
  cases a with
  | push lane x =>
    rcases push_cases lane x r with ⟨-, hpush⟩ | ⟨running, -⟩
    · exact (congrArg r.RunsDry hpush).mpr (.same hstopped rfl rfl rfl)
    · exact absurd (running.symm.trans hstopped) (by simp)
  | pop k => exact (congrArg r.RunsDry ((pops k r).of_stopped h hstopped)).mpr (.same hstopped rfl rfl rfl)
  | look k => exact (congrArg r.RunsDry ((looks k r).of_stopped h hstopped)).mpr (.same hstopped rfl rfl rfl)
  | settle k => exact .same hstopped rfl rfl rfl
  | tryPop =>
    rcases r.tryPop_cases with ⟨-, htry⟩ | ⟨lanes, x, take, htry⟩
    · exact (congrArg r.RunsDry htry).mpr (.same hstopped rfl rfl rfl)
    · refine (congrArg r.RunsDry htry).mpr ⟨(Lanes.stopped_of_take take).trans hstopped, rfl, _, rfl, ?_⟩
      rw [Lanes.items_fromLanes, Lanes.toList_of_take take]
      rfl
  | drain =>
    refine ⟨hstopped, rfl, _, rfl, ?_⟩
    rw [Lanes.items_fromLanes]
    exact List.append_nil _
  | stop => exact .same rfl rfl rfl rfl
  | leave k => exact .same hstopped rfl rfl rfl

theorem Sound.runsDry_after (h : r.Sound n) (hstopped : r.queue.state.stopped = true)
    (more : List (Act κ α)) : r.RunsDry (r.after more) := by
  induction more generalizing r n with
  | nil => exact .same hstopped rfl rfl rfl
  | cons a more ih =>
    have hstep := h.runsDry_act hstopped a
    exact hstep.trans (ih (h.act (Nat.le_succ n) fun _ => Nat.lt_succ_self n) hstep.stopped)

/-- Whatever its users do and in whatever order, a queue hands out the items of each lane in the order in
which they were put there, each once, and holds the rest; an item of the normal lane is taken only while the
priority lane is empty. A taker gets the next item, if there is one; all that is held is the items of the
priority lane, then those of the normal one, and the queue is empty when that is taken. A queue that is not
stopped takes each item. From the stop on each item is handed back and the queue stays as it is, each call
that waits for one, also if it did so before, gets the end, and nothing but those who do not wait gets what
the queue held, all of it and in order. -/
theorem lanes_keep_order {acts : List (Act κ α)} (hr : ({} : Handover κ α).after acts = r) :
    (∀ lane, ofLane lane r.taken ++ r.queue.state.lane lane = ofLane lane r.accepted) ∧
    (∀ a x, (r.act a).taken = r.taken ++ [(.normal, x)] → r.queue.state.priority = []) ∧
    ((r.act .tryPop).taken.map (·.2) = r.taken.map (·.2) ++ r.queue.state.toList.head?.toList ∧
      r.queue.tryPop.2 = r.queue.state.toList.head?) ∧
    ((r.act .drain).taken.map (·.2) = r.taken.map (·.2) ++ r.queue.drain.2 ∧
      r.queue.drain.2 = r.queue.state.lane .priority ++ r.queue.state.lane .normal ∧
      (r.act .drain).queue.state.toList = []) ∧
    (r.queue.state.stopped = false →
      (∀ lane x, (r.act (.push lane x)).accepted = r.accepted ++ [(lane, x)] ∧
        (r.act (.push lane x)).returned = r.returned) ∧
      ∀ k, k ∉ r.queue.signal.asleep → r.queue.state.toList ≠ [] → ∃ x,
        r.queue.state.toList = x :: (r.act (.pop k)).queue.state.toList ∧
        (r.act (.pop k)).answers = r.answers ++ [(k, some x)]) ∧
    ((r.act .stop).queue.state = { r.queue.state with stopped := true } ∧
      ∀ k ∈ r.queue.signal.asleep, k ∈ r.queue.stop.2) ∧
    (r.queue.state.stopped = true →
      (∀ lane x, r.act (.push lane x) = { r with returned := r.returned ++ [x] }) ∧
      (∀ k, (r.act (.pop k)).answers = r.answers ++ [(k, none)] ∧
        (r.act (.pop k)).queue.state = r.queue.state) ∧
      ∀ more, r.RunsDry (r.after more)) := by
  have h : r.Sound _ := hr ▸ sound_empty.after acts
  refine ⟨h.lanes, fun a x => priority_of_taken_normal, ⟨?_, Lanes.head?_of_take _⟩, ⟨?_, rfl, rfl⟩,
    fun running => ⟨fun lane x => ?_, fun k hawake => pop_of_items hawake running⟩,
    ⟨rfl, fun k => Signal.mem_ringBoth⟩, fun stopped => ⟨fun lane x => ?_, fun k => ?_,
      h.runsDry_after stopped⟩⟩
  · show (r.taken ++ _).map (·.2) = _
    rw [List.map_append, Lanes.items_fromLanes]
    exact congrArg (_ ++ ·.toList) (Lanes.head?_of_take _)
  · show (r.taken ++ _).map (·.2) = _
    rw [List.map_append, Lanes.items_fromLanes]
    rfl
  · show (r.push lane x).accepted = _ ∧ (r.push lane x).returned = _
    rcases push_cases lane x r with ⟨hstopped, -⟩ | ⟨-, lanes, -, -, hpush⟩
    · exact absurd (running.symm.trans hstopped) (by simp)
    · rw [hpush]
      exact ⟨rfl, rfl⟩
  · rcases push_cases lane x r with ⟨-, hpush⟩ | ⟨running, -⟩
    · exact hpush
    · exact absurd (running.symm.trans stopped) (by simp)
  · have hpop : r.act (.pop k) = _ := (pops k r).of_stopped h stopped
    exact ⟨congrArg Handover.answers hpop, congrArg (·.queue.state) hpop⟩

/-- A call takes the only item and another one waits; two more items come, one of them urgent, and the queue
is stopped before that call runs. -/
def stoppedWithItems : List (Act Nat Nat) :=
  [.push .normal 1, .pop 0, .pop 1, .push .normal 2, .push .priority 3, .stop]

/-- The call that waited gets the end, an item that comes later is handed back, and those that are held are
taken without waiting, the urgent one first. -/
theorem stopped_queue_runs_dry :
    (({} : Handover Nat Nat).after stoppedWithItems).queue.state.stopped = true ∧
    ((({} : Handover Nat Nat).after stoppedWithItems).act (.pop 1)).answers = [(0, some 1), (1, none)] ∧
    ((({} : Handover Nat Nat).after stoppedWithItems).act (.push .normal 4)).returned = [4] ∧
    ((({} : Handover Nat Nat).after stoppedWithItems).act .drain).taken.map (·.2) = [1, 3, 2] := by
  obtain ⟨-, -, -, ⟨hdrain, -⟩, -, -, hstop⟩ :=
    lanes_keep_order (r := ({} : Handover Nat Nat).after stoppedWithItems) rfl
  obtain ⟨hpush, hpop, -⟩ := hstop (by rfl)
  exact ⟨rfl, (hpop 1).1, congrArg Handover.returned (hpush .normal 4), hdrain⟩

/-! ### Nobody waits beside an item -/

omit [DecidableEq κ] in
theorem queue_served (k : κ) (r : Handover κ α) (result : Queue κ α × Option (Option α)) :
    (r.served k result).queue = result.1 := by
  unfold served
  split <;> rfl

/-- Once every woken call has run, in whatever order, no call is woken any more. -/
theorem woken_after_pops (h : r.Sound n) {order : List κ} (hall : ∀ w ∈ r.queue.signal.woken, w.1 ∈ order) :
    (r.after (order.map .pop)).queue.signal.woken = [] := by
  have hrun (r : Handover κ α) (k : κ) (h : r.Sound n) : (r.pop k).Sound n ∧
      ∀ w ∈ (r.pop k).queue.signal.woken, w ∈ r.queue.signal.woken ∧ w.1 ≠ k := by
    refine ⟨h.pop k, ?_⟩
    have hqueue : (r.pop k).queue = (r.queue.pop k).1 := queue_served k r _
    rw [hqueue]
    exact Monitor.woken_poll rfl h.attended.apart
  unfold after
  rw [List.foldl_map]
  exact Signal.woken_of_all_run (·.queue.signal) id hrun h (by simpa using hall)

/-- At no time more than one call stands between its look and its sleep. -/
def OneLooks (r : Handover κ α) (acts : List (Act κ α)) : Prop :=
  ∀ before, before <+: acts → (r.after before).queue.signal.wary.length ≤ 1

/-- Then no ring is lost. -/
theorem missed_of_oneLooks {acts : List (Act κ α)} (h : r.OneLooks acts) : r.missed 0 acts = 0 := by
  refine Signal.tally_eq_zero fun before a hbefore _ hmisses => ?_
  have hone := h before ((List.prefix_append before [a]).trans hbefore)
  have hdeaf : (r.after before).queue.signal.Deaf := by
    cases a with
    | push | leave => exact hmisses.2
    | pop | look | settle | tryPop | drain | stop => exact absurd hmisses id
  exact absurd hdeaf.2.2 (Nat.not_le.2 (Nat.lt_succ_of_le hone))

theorem missed_of_pops (order : List κ) : r.missed 0 (order.map .pop) = 0 := by
  refine Signal.tally_eq_zero fun before a hbefore _ hmisses => ?_
  have ha := hbefore.subset (List.mem_append_right _ (List.mem_singleton_self a))
  obtain ⟨k, -, rfl⟩ := List.mem_map.1 ha
  exact hmisses

/-- Only a look makes a call stand there. -/
theorem wary_act {j : κ} {a : Act κ α} (hj : j ∈ (r.act a).queue.signal.wary) :
    j ∈ r.queue.signal.wary ∨ a = .look j := by
  cases a with
  | push lane x =>
    left
    have hpush : (r.push lane x).queue.signal.wary = r.queue.signal.wary := by
      rcases push_cases lane x r with ⟨-, hpush⟩ | ⟨-, lanes, -, -, hpush⟩ <;> rw [hpush]
      exact Signal.wary_ringOne _
    exact hpush ▸ hj
  | pop k =>
    left
    have hpops : r.Pops k (·.sleep k) (r.act (.pop k)) := pops k r
    generalize r.act (.pop k) = next at hj hpops
    cases hpops with
    | asleep => exact hj
    | ended | given | waits => exact Signal.wary_rise_subset _ k hj
  | look k =>
    have hpops : r.Pops k (·.hesitate k) (r.act (.look k)) := looks k r
    generalize r.act (.look k) = next at hj hpops
    cases hpops with
    | asleep => exact .inl hj
    | ended | given => exact .inl (Signal.wary_rise_subset _ k hj)
    | waits =>
      rcases List.mem_append.1 hj with hj | hj
      · exact .inl (Signal.wary_rise_subset _ k hj)
      · rw [List.mem_singleton.1 hj]
        exact .inr rfl
  | settle k => exact .inl (Signal.wary_settle_subset _ k hj)
  | tryPop | drain => exact .inl hj
  | stop =>
    have hnobody := Signal.wary_ringBoth r.queue.signal
    exact absurd (hnobody ▸ hj) (List.not_mem_nil)
  | leave k => exact .inl (Signal.wary_leave_subset _ k hj)

/-- One call at most stands there if all others run undisturbed. -/
theorem oneLooks_of_looker {acts : List (Act κ α)} (k : κ) (hacts : ∀ j, .look j ∈ acts → j = k) :
    ({} : Handover κ α).OneLooks acts := by
  have honly (r : Handover κ α) (hr : ∀ j ∈ r.queue.signal.wary, j = k) (before : List (Act κ α))
      (hlooks : ∀ j, .look j ∈ before → j = k) : ∀ j ∈ (r.after before).queue.signal.wary, j = k := by
    induction before generalizing r with
    | nil => exact hr
    | cons a before ih =>
      refine ih (r.act a) (fun j hj => ?_) fun j hj => hlooks j (List.mem_cons_of_mem a hj)
      rcases wary_act hj with hj | rfl
      · exact hr j hj
      · exact hlooks j (List.mem_cons_self ..)
  intro before hbefore
  have hwary := honly {} (fun j hj => by cases hj) before fun j hj => hacts j (hbefore.subset hj)
  have hsound : (({} : Handover κ α).after before).Sound _ := sound_empty.after before
  have hsub : (({} : Handover κ α).after before).queue.signal.wary ⊆ [k] := fun j hj =>
    List.mem_singleton.2 (hwary j hj)
  exact (List.subperm_of_subset hsound.attended.apart.nodup_wary hsub).length_le

/-- Whatever its users do and in whatever order, with calls that are cancelled at any time and calls that
overtake others, a call sleeps only at a queue that is not stopped, and for each item another one was woken
alone that has not run, or a ring was lost. None is lost while at no time more than one call stands between its
look and its sleep, as in a run with one taker, or with one that others come between. Once every woken call of
such a run has run, a call that still waits waits at an empty queue. -/
theorem waiting_pops_find_nothing {acts : List (Act κ α)} (hr : ({} : Handover κ α).after acts = r) :
    (r.queue.signal.asleep ≠ [] → r.queue.state.stopped = false ∧
      r.queue.state.size ≤ r.queue.signal.alone + ({} : Handover κ α).missed 0 acts) ∧
    (({} : Handover κ α).OneLooks acts → ({} : Handover κ α).missed 0 acts = 0) ∧
    (∀ k, (∀ j, .look j ∈ acts → j = k) → ({} : Handover κ α).OneLooks acts) ∧
    (({} : Handover κ α).OneLooks acts → r.queue.signal.woken = [] → r.queue.signal.asleep ≠ [] →
      r.queue.state.toList = [] ∧ r.queue.state.stopped = false) ∧
    ∀ order : List κ, (∀ w ∈ r.queue.signal.woken, w.1 ∈ order) →
      (r.after (order.map .pop)).queue.signal.woken = [] ∧
      (({} : Handover κ α).OneLooks acts → (r.after (order.map .pop)).queue.signal.asleep ≠ [] →
        (r.after (order.map .pop)).queue.state.toList = [] ∧
        (r.after (order.map .pop)).queue.state.stopped = false) := by
  have hsize {q : Handover κ α} {n : Nat} (h : q.Sound n) (hasleep : q.queue.signal.asleep ≠ []) :
      q.queue.state.stopped = false ∧ q.queue.state.size ≤ q.queue.signal.alone + n := by
    have hdue := h.attended.due_le (.inl hasleep)
    exact ⟨by simpa using h.attended.unripe (.inl hasleep), by omega⟩
  have hrest {q : Handover κ α} (h : q.Sound 0) (hwoken : q.queue.signal.woken = [])
      (hasleep : q.queue.signal.asleep ≠ []) :
      q.queue.state.toList = [] ∧ q.queue.state.stopped = false := by
    obtain ⟨hrunning, hnone⟩ := hsize h hasleep
    rw [Signal.alone_of_woken_nil hwoken, Lanes.size_eq] at hnone
    exact ⟨List.eq_nil_of_length_eq_zero (Nat.le_zero.1 hnone), hrunning⟩
  have h : r.Sound _ := hr ▸ sound_empty.after acts
  have hone (hlooks : ({} : Handover κ α).OneLooks acts) : r.Sound 0 := missed_of_oneLooks hlooks ▸ h
  refine ⟨hsize h, missed_of_oneLooks, oneLooks_of_looker, fun hlooks => hrest (hone hlooks),
    fun order hall => ⟨woken_after_pops h hall, fun hlooks => ?_⟩⟩
  have hpops := (hone hlooks).after (order.map .pop)
  rw [missed_of_pops] at hpops
  exact hrest hpops (woken_after_pops h hall)

/-- Two calls find nothing, and two items come before either sleeps. The first then hears the ring that was
kept, and takes an item, and the second sleeps. -/
def rungTwice : List (Act Nat Nat) :=
  [.look 0, .look 1, .push .normal 1, .push .normal 2, .settle 0, .pop 0, .settle 1]

/-- It sleeps beside the other item, and nobody is woken: the second ring is lost. -/
theorem second_ring_is_lost :
    (({} : Handover Nat Nat).after rungTwice).queue.signal.asleep = [1] ∧
    (({} : Handover Nat Nat).after rungTwice).queue.signal.woken = [] ∧
    (({} : Handover Nat Nat).after rungTwice).queue.signal.wary = [] ∧
    (({} : Handover Nat Nat).after rungTwice).queue.state.toList = [2] ∧
    ({} : Handover Nat Nat).missed 0 rungTwice = 1 := by
  decide

/-- Four calls wait, and two items come. The first call that was woken goes away before it runs, and a new one
takes an item before the others run. -/
def overtaken : List (Act Nat Nat) :=
  [.pop 0, .pop 1, .pop 2, .pop 3, .push .normal 1, .push .normal 2, .leave 0, .pop 4]

/-- The two calls that are woken then run in any order; the one that finds nothing waits with the last. -/
theorem overtaken_pop_waits_at_empty :
    (({} : Handover Nat Nat).after overtaken).queue.signal.woken = [(1, .one), (2, .one)] ∧
    (({} : Handover Nat Nat).after overtaken).queue.state.size ≤ 2 ∧
    ((({} : Handover Nat Nat).after overtaken).after [.pop 2, .pop 1]).queue.signal.asleep = [3, 1] ∧
    ((({} : Handover Nat Nat).after overtaken).after [.pop 2, .pop 1]).queue.state.toList = [] := by
  obtain ⟨hdue, hmissed, hlookers, -, hruns⟩ :=
    waiting_pops_find_nothing (r := ({} : Handover Nat Nat).after overtaken) rfl
  have hlooks : ({} : Handover Nat Nat).OneLooks overtaken := hlookers 0 fun j hj => by simp [overtaken] at hj
  have hall : ∀ w ∈ (({} : Handover Nat Nat).after overtaken).queue.signal.woken, w.1 ∈ [2, 1] := by decide
  have hasleep : ((({} : Handover Nat Nat).after overtaken).after [.pop 2, .pop 1]).queue.signal.asleep =
      [3, 1] := rfl
  have hsize := (hdue (by decide)).2
  rw [hmissed hlooks] at hsize
  obtain ⟨-, hrest⟩ := hruns [2, 1] hall
  exact ⟨rfl, hsize, hasleep, (hrest hlooks (by decide)).1⟩

end Handover

end StreamMux
