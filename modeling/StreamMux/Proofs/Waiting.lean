import StreamMux.Proofs.Windows

/-! Who waits on a connection, and what a change of the connection does to them. Readers sleep only on a
window that takes more, writers only on one that is open and without credit, and the line of a write lock
has somebody in front of it who holds the lock. Whoever leaves a line is woken, but for those who go away
on their own. -/

namespace StreamMux

theorem mem_joinLine {κ : Type} [DecidableEq κ] {line more : List κ} {k : κ} :
    k ∈ joinLine line more ↔ k ∈ line ∨ k ∈ more := by
  unfold joinLine
  induction more generalizing line with
  | nil => simp
  | cons x more ih =>
    rw [List.foldl_cons, ih, List.mem_cons]
    by_cases hx : x ∈ line
    · rw [if_pos hx]
      constructor
      · rintro (h | h)
        · exact .inl h
        · exact .inr (.inr h)
      · rintro (h | rfl | h)
        · exact .inl h
        · exact .inl hx
        · exact .inr h
    · rw [if_neg hx, List.mem_append, List.mem_singleton, or_assoc]

/-! ### Signals and monitors -/

namespace Signal

variable {κ : Type} {s : Signal κ} {k x : κ}

theorem asleep_ringOne (h : x ∈ s.asleep) : x ∈ s.ringOne.1.asleep ∨ x ∈ s.ringOne.2 := by
  unfold ringOne
  split
  · exact .inl h
  · rename_i hs
    rw [hs] at h
    rcases List.mem_cons.1 h with rfl | h
    · exact .inr (List.mem_singleton_self _)
    · exact .inl h

theorem ringOne_subset (s : Signal κ) : s.ringOne.1.asleep ⊆ s.asleep := by
  unfold ringOne
  split
  · exact List.Subset.refl _
  · rename_i hs
    rw [hs]
    exact List.subset_cons_self ..

/-- A ring for all leaves nobody asleep. -/
theorem asleep_ringBoth (s : Signal κ) : s.ringBoth.1.asleep = [] := by
  simp [ringBoth, ringAll, ringOne]

/-- Nor is anybody left who is about to sleep. -/
theorem wary_ringBoth (s : Signal κ) : s.ringBoth.1.wary = [] := by
  simp [ringBoth, ringAll, ringOne]

theorem mem_ringBoth (h : x ∈ s.asleep) : x ∈ s.ringBoth.2 := List.mem_append_left _ h

variable [DecidableEq κ]

theorem asleep_leave (h : x ∈ s.asleep) (hx : x ≠ k) :
    x ∈ (s.leave k).1.asleep ∨ x ∈ (s.leave k).2 := by
  have hmem : x ∈ s.asleep.filter (· ≠ k) := List.mem_filter.2 ⟨h, by simpa using hx⟩
  unfold leave
  dsimp only
  split
  · exact asleep_ringOne hmem
  · exact .inl hmem

theorem leave_subset (s : Signal κ) (k : κ) : (s.leave k).1.asleep ⊆ s.asleep := by
  have hsub : s.asleep.filter (· ≠ k) ⊆ s.asleep := List.filter_sublist.subset
  unfold leave
  dsimp only
  split
  · exact fun x hx => hsub (ringOne_subset _ hx)
  · exact hsub

end Signal

namespace Monitor

variable {κ σ β : Type} [DecidableEq κ] {m m' : Monitor κ σ} {k x : κ} {look : σ → σ × Option β}

/-- Who slept goes on sleeping while another one looks. -/
theorem asleep_poll {answer : Option β} (h : m.poll k look = (m', answer)) (hx : x ∈ m.signal.asleep) :
    x ∈ m'.signal.asleep := by
  unfold poll at h
  split at h
  · cases h; exact hx
  · dsimp only at h
    split at h <;> cases h
    · exact hx
    · exact List.mem_append_left _ hx

/-- Who is given nothing sleeps. -/
theorem asleep_of_poll_none (h : m.poll k look = (m', none)) : k ∈ m'.signal.asleep := by
  unfold poll at h
  split at h
  · rename_i hk
    cases h; exact hk
  · dsimp only at h
    split at h <;> cases h
    exact List.mem_append_right _ (List.mem_singleton_self _)

/-- If somebody sleeps after a look, somebody slept before, or the look was in vain. -/
theorem poll_cases {answer : Option β} (h : m.poll k look = (m', answer)) :
    (m'.signal.asleep = m.signal.asleep ∧ (m'.state = m.state ∨ ∃ x, look m.state = (m'.state, some x))) ∨
      look m.state = (m'.state, none) := by
  unfold poll at h
  split at h
  · cases h; exact .inl ⟨rfl, .inl rfl⟩
  · dsimp only at h
    split at h
    · rename_i hl
      cases h; exact .inl ⟨rfl, .inr ⟨_, hl⟩⟩
    · rename_i hl
      cases h; exact .inr hl

end Monitor

namespace Lock

variable {κ : Type} {l : Lock κ} {k x : κ}

/-- The holder and those in line. -/
def members (l : Lock κ) : List κ := l.holder.toList ++ l.line

/-- Nobody stands in line for a free lock, and nobody twice. -/
structure Orderly (l : Lock κ) : Prop where
  held : l.holder = none → l.line = []
  nodup : l.members.Nodup

theorem request_cases (k : κ) (l : Lock κ) :
    (l.holder = none ∧ l.request k = { l with holder := some k }) ∨
      ∃ h, l.holder = some h ∧ l.request k = { l with line := l.line ++ [k] } := by
  unfold request
  split
  · rename_i hh; exact .inl ⟨hh, rfl⟩
  · rename_i h hh; exact .inr ⟨h, hh, rfl⟩

theorem Orderly.request (h : l.Orderly) (hk : k ∉ l.members) : (l.request k).Orderly := by
  obtain ⟨held, nodup⟩ := h
  rcases request_cases k l with ⟨hh, hl⟩ | ⟨x, hh, hl⟩
  · rw [hl]
    exact ⟨fun hn => (by cases hn), by simp [members, held hh]⟩
  · rw [hl]
    refine ⟨fun hn => ?_, ?_⟩
    · rw [show l.holder = none from hn] at hh; cases hh
    · show (l.holder.toList ++ (l.line ++ [k])).Nodup
      rw [← List.append_assoc]
      exact List.nodup_append.2 ⟨nodup, by simp, fun a ha b hb => by
        rw [List.mem_singleton.1 hb]
        exact fun e => hk (e ▸ ha)⟩

theorem members_request (k : κ) (l : Lock κ) : (l.request k).members ⊆ k :: l.members := by
  intro x hx
  rcases request_cases k l with ⟨hh, hl⟩ | ⟨h, hh, hl⟩
  · rw [hl] at hx
    simpa [members, hh] using hx
  · rw [hl] at hx
    simp only [members, List.mem_append, List.mem_cons] at hx ⊢
    rcases hx with hx | hx | hx | hx
    · exact .inr (.inl hx)
    · exact .inr (.inr hx)
    · exact .inl hx
    · cases hx

theorem line_request (hx : x ∈ l.line) (k : κ) : x ∈ (l.request k).line := by
  rcases request_cases k l with ⟨-, hl⟩ | ⟨-, -, hl⟩ <;> rw [hl]
  · exact hx
  · exact List.mem_append_left _ hx

theorem mem_request_of_mem (hx : x ∈ l.members) (k : κ) : x ∈ (l.request k).members := by
  rcases request_cases k l with ⟨hh, hl⟩ | ⟨-, -, hl⟩ <;> rw [hl]
  · rw [members, hh] at hx
    exact List.mem_append_right _ hx
  · simp only [members, List.mem_append] at hx ⊢
    exact hx.imp_right .inl

/-- Who asks does not push the holder out. -/
theorem holder_request (h : l.holder = some x) (k : κ) : (l.request k).holder = some x := by
  rcases request_cases k l with ⟨hnone, -⟩ | ⟨y, -, hl⟩
  · rw [h] at hnone
    cases hnone
  · rw [hl]
    exact h

/-- The one who asked holds the lock or stands in line. -/
theorem mem_request (k : κ) (l : Lock κ) :
    (l.request k).holder = some k ∨ k ∈ (l.request k).line := by
  rcases request_cases k l with ⟨-, hl⟩ | ⟨-, -, hl⟩ <;> rw [hl]
  · exact .inl rfl
  · exact .inr (List.mem_append_right _ (List.mem_singleton_self _))

variable [DecidableEq κ]

/-- Who goes away is no member any more; nobody else comes or goes, but the first in line moves up. -/
theorem leave_spec (h : l.Orderly) (k : κ) :
    (l.leave k).1.Orderly ∧ k ∉ (l.leave k).1.members ∧ (l.leave k).1.members ⊆ l.members ∧
      ∀ x ∈ l.line, x ≠ k → x ∈ (l.leave k).1.line ∨ x ∈ (l.leave k).2 := by
  obtain ⟨holder, line⟩ := l
  obtain ⟨held, nodup⟩ := h
  unfold leave
  split
  · rename_i hk
    cases hk
    simp only [members, Option.toList_some, List.singleton_append, List.nodup_cons] at nodup
    obtain ⟨hnot, hline⟩ := nodup
    cases line with
    | nil =>
      exact ⟨⟨fun _ => rfl, by simp [release, members]⟩, by simp [release, members],
        by simp [release, members], fun x hx => by cases hx⟩
    | cons y line =>
      refine ⟨⟨fun hn => (by cases hn), hline⟩, hnot, ?_, fun x hx _ => ?_⟩
      · exact fun x hx => List.mem_cons_of_mem _ hx
      · rcases List.mem_cons.1 hx with rfl | hx
        · exact .inr (List.mem_singleton_self _)
        · exact .inl hx
  · rename_i hk
    have hsub : (holder.toList ++ line.filter (· ≠ k)).Sublist (holder.toList ++ line) :=
      (List.Sublist.refl _).append List.filter_sublist
    refine ⟨⟨fun hn => ?_, nodup.sublist hsub⟩, ?_, hsub.subset, fun x hx hne => .inl ?_⟩
    · show line.filter (· ≠ k) = []
      rw [show line = [] from held hn]
      rfl
    · intro hmem
      rcases List.mem_append.1 hmem with hmem | hmem
      · exact hk (by simpa using hmem)
      · exact of_decide_eq_true (List.mem_filter.1 hmem).2 rfl
    · exact List.mem_filter.2 ⟨hx, by simpa using hne⟩

/-- Who stays is a member still. -/
theorem mem_leave (hx : x ∈ l.members) (hne : x ≠ k) : x ∈ (l.leave k).1.members := by
  obtain ⟨holder, line⟩ := l
  unfold leave
  split
  · rename_i hk
    cases hk
    have hline : x ∈ line := (List.mem_cons.1 hx).resolve_left hne
    cases line with
    | nil => cases hline
    | cons y line => exact hline
  · rcases List.mem_append.1 hx with hx | hx
    · exact List.mem_append_left _ hx
    · exact List.mem_append_right _ (List.mem_filter.2 ⟨hx, by simpa using hne⟩)

/-- Who goes away does not push another holder out. -/
theorem holder_leave (h : l.holder = some x) (hne : x ≠ k) : (l.leave k).1.holder = some x := by
  have hother : l.holder ≠ some k := fun he => hne (Option.some.inj (h.symm.trans he))
  rw [leave, if_neg hother]
  exact h

end Lock

/-! ### Connections -/

/-- What the readers took is reported, but for less than a segment while more is unread. -/
def ReceiveWindow.Thrifty (limit : Nat) (w : ReceiveWindow) : Prop :=
  w.consumed = 0 ∨ w.consumed < limit ∧ 0 < w.buffered

theorem ReceiveWindow.stopped_of_serve {w w' : ReceiveWindow} {want : Want} {answer : Option Taken}
    (h : w.serve want = (w', answer)) : w'.stopped = w.stopped := by
  obtain ⟨⟨count, hw, -⟩, -⟩ := serve_spec h
  rw [hw]
  rfl

/-- Only a window that takes more keeps a reader waiting, and its counts stay. -/
theorem ReceiveWindow.of_serve_none {w w' : ReceiveWindow} {want : Want}
    (h : w.serve want = (w', none)) :
    w.stopped = false ∧ w'.buffered = w.buffered ∧ w'.consumed = w.consumed := by
  rcases want with (_ | size) | _
  · cases h
  · rcases read_cases (size + 1) w with ⟨-, hr⟩ | ⟨data, left, part, rest, -, -, hr⟩
    · simp only [serve, hr] at h
      cases hs : w.stopped <;> rw [hs] at h <;> cases h
      exact ⟨rfl, rfl, rfl⟩
    · simp only [serve, hr] at h
      cases h
  · simp only [serve, readSegment] at h
    split at h
    · cases h
    · cases hs : w.stopped <;> rw [hs] at h <;> cases h
      exact ⟨rfl, rfl, rfl⟩

theorem ReceiveWindow.thrifty_takeCredit (limit : Nat) (w : ReceiveWindow) :
    (w.takeCredit limit).1.Thrifty limit := by
  unfold takeCredit
  split
  · rename_i h
    exact h
  · exact .inl rfl

theorem Inflow.takeCredit_none {limit : Nat} {f f' : Inflow Fiber} (h : f.takeCredit limit = (f', none)) :
    f' = f := by
  unfold Inflow.takeCredit ReceiveWindow.takeCredit at h
  by_cases hdue : f.state.consumed = 0 ∨ (f.state.consumed < limit ∧ 0 < f.state.buffered)
  · rw [if_pos hdue] at h
    cases h
    rfl
  · rw [if_neg hdue] at h
    cases h

/-- Only a window without credit keeps a writer waiting. -/
theorem SendWindow.of_acquire_none {w w' : SendWindow} {want : Nat} (h : w.acquire want = (w', none)) :
    w.closed = false ∧ w.remaining = 0 := by
  unfold acquire at h
  split at h
  · cases h
  · rename_i hclosed
    split at h
    · rename_i hzero
      exact ⟨by simpa using hclosed, hzero⟩
    · cases h

namespace Conn

/-- Whoever sleeps on the connection has reason to. -/
structure Calm (c : Conn) : Prop where
  readers : c.inflow.signal.asleep ≠ [] → c.inflow.state.stopped = false
  writers : c.outflow.signal.asleep ≠ [] →
    c.outflow.state.closed = false ∧ c.outflow.state.remaining = 0
  lock : c.writeLock.Orderly

/-- From `c` to `d` everybody who waits goes on waiting or is woken, but those who are `away`. -/
structure Heeds (away : Nat → Prop) (c d : Conn) (woken : List Fiber) : Prop where
  calm : c.Calm → d.Calm
  readers : ∀ k, .call k ∈ c.inflow.signal.asleep → ¬ away k →
    .call k ∈ d.inflow.signal.asleep ∨ .call k ∈ woken
  writers : ∀ k, .call k ∈ c.outflow.signal.asleep → ¬ away k →
    .call k ∈ d.outflow.signal.asleep ∨ .call k ∈ woken
  line : ∀ k ∈ c.writeLock.line, ¬ away k → k ∈ d.writeLock.line ∨ .call k ∈ woken
  members : ∀ k ∈ c.writeLock.members, ¬ away k → k ∈ d.writeLock.members

/-- From `c` to `d` an open connection stays thrifty. -/
def Saves (limit : Nat) (c d : Conn) : Prop :=
  d.closed = false → d.closing = false → c.closed = false ∧ c.closing = false ∧
    (c.inflow.state.Thrifty limit → d.inflow.state.Thrifty limit)

variable {away : Nat → Prop} {c d e : Conn} {limit : Nat}

theorem calm_make (settings : Settings) (id : Int32) (reply : Reply) : (make settings id reply).Calm :=
  ⟨fun h => absurd rfl h, fun h => absurd rfl h, fun _ => rfl, List.nodup_nil⟩

/-- A change that nobody waits for. -/
theorem Heeds.same (hi : d.inflow = c.inflow) (ho : d.outflow = c.outflow)
    (hl : d.writeLock = c.writeLock) (woken : List Fiber) : Heeds away c d woken where
  calm h := ⟨hi ▸ h.readers, ho ▸ h.writers, hl ▸ h.lock⟩
  readers _ hk _ := .inl (hi ▸ hk)
  writers _ hk _ := .inl (ho ▸ hk)
  line _ hk _ := .inl (hl ▸ hk)
  members _ hk _ := hl ▸ hk

theorem Saves.same (hc : d.closed = c.closed) (hcl : d.closing = c.closing)
    (hi : d.inflow.state = c.inflow.state) : Saves limit c d := fun h₁ h₂ =>
  ⟨hc ▸ h₁, hcl ▸ h₂, fun h => hi ▸ h⟩

theorem heeds_stopWindows (c : Conn) : Heeds away c c.stopWindows.1 c.stopWindows.2 where
  calm h := ⟨fun hne => absurd (Signal.asleep_ringBoth _) hne,
    fun hne => absurd (Signal.asleep_ringBoth _) hne, h.lock⟩
  readers _ hk _ := .inr (List.mem_append_left _ (Signal.mem_ringBoth hk))
  writers _ hk _ := .inr (List.mem_append_right _ (Signal.mem_ringBoth hk))
  line _ hk _ := .inl hk
  members _ hk _ := hk

theorem heeds_shutdown (c : Conn) : Heeds away c c.shutdown.1 c.shutdown.2 := by
  have h : Heeds away c { c with closed := true }.stopWindows.1 { c with closed := true }.stopWindows.2 :=
    have h' : Heeds away { c with closed := true } _ _ := heeds_stopWindows { c with closed := true }
    ⟨fun hc => h'.calm ⟨hc.readers, hc.writers, hc.lock⟩, h'.readers, h'.writers, h'.line,
      h'.members⟩
  unfold shutdown
  dsimp only
  split
  · refine ⟨fun hc => ?_, fun k hk ha => ?_, fun k hk ha => ?_, fun k hk ha => ?_, h.members⟩
    · exact ⟨(h.calm hc).readers, (h.calm hc).writers, (h.calm hc).lock⟩
    · exact (h.readers k hk ha).imp_right (List.mem_append_left _)
    · exact (h.writers k hk ha).imp_right (List.mem_append_left _)
    · exact (h.line k hk ha).imp_right (List.mem_append_left _)
  · exact h

theorem heeds_closeByPeer (c : Conn) : Heeds away c c.closeByPeer.1 c.closeByPeer.2 :=
  have h : Heeds away { c with closing := true } _ _ := heeds_stopWindows { c with closing := true }
  ⟨fun hc => h.calm ⟨hc.readers, hc.writers, hc.lock⟩, h.readers, h.writers, h.line,
    h.members⟩

theorem heeds_close (c : Conn) : Heeds away c { c with closed := true }.stopWindows.1
    { c with closed := true }.stopWindows.2 :=
  have h : Heeds away { c with closed := true } _ _ := heeds_stopWindows { c with closed := true }
  ⟨fun hc => h.calm ⟨hc.readers, hc.writers, hc.lock⟩, h.readers, h.writers, h.line,
    h.members⟩

theorem heeds_answer (accepted : Bool) (c : Conn) :
    Heeds away c (c.answer accepted).1 (c.answer accepted).2 := by
  unfold answer
  split <;> refine .same ?_ ?_ ?_ _ <;> rfl

theorem heeds_grant (credit : UInt32) (c : Conn) :
    Heeds away c (c.grant credit).1 (c.grant credit).2 where
  calm h := ⟨h.readers, fun hne => absurd (Signal.asleep_ringBoth _) hne, h.lock⟩
  readers _ hk _ := .inl hk
  writers _ hk _ := .inr (Signal.mem_ringBoth hk)
  line _ hk _ := .inl hk
  members _ hk _ := hk

theorem saves_answer (accepted : Bool) (c : Conn) : Saves limit c (c.answer accepted).1 := by
  unfold answer
  split <;> exact .same rfl rfl rfl

theorem eq_of_write {inflow : Inflow Fiber} {woken : List Fiber} {id : Int32} {data : Bytes}
    {part : Bool} (h : c.inflow.write id data part = .ok (inflow, woken)) :
    ∃ window, c.inflow.state.write id data part = .ok window ∧
      c.inflow.tellOne window = (inflow, woken) := by
  unfold Inflow.write at h
  cases hw : c.inflow.state.write id data part with
  | error cause => rw [hw] at h; cases h
  | ok window => rw [hw] at h; exact ⟨window, rfl, by simpa [Except.map] using h⟩

/-- A segment wakes one reader. -/
theorem heeds_write {inflow : Inflow Fiber} {woken : List Fiber} {id : Int32} {data : Bytes} {part : Bool}
    (h : c.inflow.write id data part = .ok (inflow, woken)) : Heeds away c { c with inflow } woken := by
  obtain ⟨window, hw, he⟩ := eq_of_write h
  have hopen : window.stopped = false := by
    unfold ReceiveWindow.write at hw
    split at hw
    · cases hw
    · rename_i hs
      split at hw <;> cases hw
      simpa using hs
  unfold Monitor.tellOne at he
  cases he
  exact ⟨fun hc => ⟨fun _ => hopen, hc.writers, hc.lock⟩, fun k hk _ => Signal.asleep_ringOne hk,
    fun k hk _ => .inl hk, fun k hk _ => .inl hk, fun k hk _ => hk⟩

theorem saves_write {inflow : Inflow Fiber} {woken : List Fiber} {id : Int32} {data : Bytes} {part : Bool}
    (h : c.inflow.write id data part = .ok (inflow, woken)) : Saves limit c { c with inflow } := by
  obtain ⟨window, hw, he⟩ := eq_of_write h
  have hcounts : window.consumed = c.inflow.state.consumed ∧
      c.inflow.state.buffered ≤ window.buffered := by
    unfold ReceiveWindow.write at hw
    split at hw
    · cases hw
    · split at hw <;> cases hw
      exact ⟨rfl, Nat.le_add_right ..⟩
  unfold Monitor.tellOne at he
  cases he
  refine fun h₁ h₂ => ⟨h₁, h₂, ?_⟩
  rintro (hz | ⟨hlt, hb⟩)
  · exact .inl (hcounts.1.trans hz)
  · exact .inr ⟨by rw [hcounts.1]; exact hlt, Nat.lt_of_lt_of_le hb hcounts.2⟩

/-! ### Readers and writers -/

/-- A reader looks. -/
theorem heeds_take {k : Nat} {want : Want} {inflow : Inflow Fiber} {answer : Option Taken}
    (h : c.inflow.take (.call k) want = (inflow, answer)) : Heeds away c { c with inflow } [] where
  calm hc := by
    refine ⟨fun hne => ?_, hc.writers, hc.lock⟩
    rcases Monitor.poll_cases h with ⟨hsame, hs | ⟨taken, hl⟩⟩ | hl
    · rw [hs]
      exact hc.readers (hsame ▸ hne)
    · rw [ReceiveWindow.stopped_of_serve hl]
      exact hc.readers (hsame ▸ hne)
    · rw [ReceiveWindow.stopped_of_serve hl]
      exact (ReceiveWindow.of_serve_none hl).1
  readers _ hx _ := .inl (Monitor.asleep_poll h hx)
  writers _ hx _ := .inl hx
  line _ hx _ := .inl hx
  members _ hx _ := hx

/-- A look in vain leaves a connection thrifty. -/
theorem saves_take_none {k : Nat} {want : Want} {inflow : Inflow Fiber}
    (h : c.inflow.take (.call k) want = (inflow, none)) : Saves limit c { c with inflow } :=
  fun h₁ h₂ => ⟨h₁, h₂, by
    rcases Monitor.state_of_poll_none h with hs | hl
    · rw [hs]; exact fun h => h
    · obtain ⟨-, hb, hcons⟩ := ReceiveWindow.of_serve_none hl
      rw [ReceiveWindow.Thrifty, ReceiveWindow.Thrifty, hb, hcons]
      exact fun h => h⟩

theorem saves_takeCredit {inflow : Inflow Fiber} {credit : Option UInt32}
    (h : c.inflow.takeCredit limit = (inflow, credit)) : inflow.state.Thrifty limit := by
  have := ReceiveWindow.thrifty_takeCredit limit c.inflow.state
  unfold Inflow.takeCredit at h
  cases h
  exact this

/-- A report changes only the account. -/
theorem heeds_takeCredit {inflow : Inflow Fiber} {credit : Option UInt32}
    (h : c.inflow.takeCredit limit = (inflow, credit)) : Heeds away c { c with inflow } [] := by
  unfold Inflow.takeCredit at h
  cases h
  have hstop : (c.inflow.state.takeCredit limit).1.stopped = c.inflow.state.stopped := by
    unfold ReceiveWindow.takeCredit
    split <;> rfl
  exact ⟨fun hc => ⟨fun hne => hstop.trans (hc.readers hne), hc.writers, hc.lock⟩,
    fun x hx _ => .inl hx, fun x hx _ => .inl hx, fun x hx _ => .inl hx, fun x hx _ => hx⟩

/-- A writer looks. -/
theorem heeds_acquire {k want : Nat} {outflow : Outflow Fiber} {answer : Option (Option Nat)}
    (h : c.outflow.acquire (.call k) want = (outflow, answer)) : Heeds away c { c with outflow } [] where
  calm hc := by
    refine ⟨hc.readers, fun hne => ?_, hc.lock⟩
    rcases Monitor.poll_cases h with ⟨hsame, hs | ⟨given, hl⟩⟩ | hl
    · rw [hs]
      exact hc.writers (hsame ▸ hne)
    · obtain ⟨hclosed, hzero⟩ := hc.writers (hsame ▸ hne)
      simp [SendWindow.acquire, hclosed, hzero] at hl
    · rw [SendWindow.eq_of_acquire hl (fun _ => by simp)]
      exact SendWindow.of_acquire_none hl
  readers _ hx _ := .inl hx
  writers _ hx _ := .inl (Monitor.asleep_poll h hx)
  line _ hx _ := .inl hx
  members _ hx _ := hx

/-- A reader goes away. -/
theorem heeds_inflow_leave (c : Conn) (k : Nat) :
    Heeds (· = k) c { c with inflow := (c.inflow.leave (.call k)).1 } (c.inflow.leave (.call k)).2 where
  calm hc := ⟨fun hne => hc.readers fun he => hne (List.eq_nil_of_subset_nil
    (he ▸ Signal.leave_subset c.inflow.signal (.call k))), hc.writers, hc.lock⟩
  readers _ hx ha := Signal.asleep_leave hx (by simpa using ha)
  writers _ hx _ := .inl hx
  line _ hx _ := .inl hx
  members _ hx _ := hx

/-- A writer goes away. -/
theorem heeds_outflow_leave (c : Conn) (k : Nat) :
    Heeds (· = k) c { c with outflow := (c.outflow.leave (.call k)).1 } (c.outflow.leave (.call k)).2 where
  calm hc := ⟨hc.readers, fun hne => hc.writers fun he => hne (List.eq_nil_of_subset_nil
    (he ▸ Signal.leave_subset c.outflow.signal (.call k))), hc.lock⟩
  readers _ hx _ := .inl hx
  writers _ hx ha := Signal.asleep_leave hx (by simpa using ha)
  line _ hx _ := .inl hx
  members _ hx _ := hx

/-- A write gives up the lock, or its place in line. -/
theorem heeds_lock_leave (h : c.writeLock.Orderly) (k : Nat) :
    Heeds (· = k) c { c with writeLock := (c.writeLock.leave k).1 }
      ((c.writeLock.leave k).2.map Fiber.call) where
  calm hc := ⟨hc.readers, hc.writers, (Lock.leave_spec h k).1⟩
  readers _ hx _ := .inl hx
  writers _ hx _ := .inl hx
  line x hx ha := ((Lock.leave_spec h k).2.2.2 x hx ha).imp_right List.mem_map_of_mem
  members _ hx ha := Lock.mem_leave hx ha

/-- A write asks for the lock. -/
theorem heeds_lock_request {k : Nat} (hk : k ∉ c.writeLock.members) :
    Heeds away c { c with writeLock := c.writeLock.request k } [] where
  calm hc := ⟨hc.readers, hc.writers, hc.lock.request hk⟩
  readers _ hx _ := .inl hx
  writers _ hx _ := .inl hx
  line _ hx _ := .inl (Lock.line_request hx k)
  members _ hx _ := Lock.mem_request_of_mem hx k

end Conn

end StreamMux
