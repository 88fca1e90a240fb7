import StreamMux.Proofs.Waiting

/-! Nobody is forgotten. Every call that has not ended is ready, or stands where a later change will
wake it: in a line of its connection, or among those whom the end of the session wakes. What was read is
reported as soon as that is due. Both hold between any two turns; in the middle of a turn its call may be
away from its place, and a connection may be in debt. -/

namespace StreamMux

/-- The stages of a write from asking for the lock to giving it back. -/
def CallStage.isWriting : CallStage → Bool
  | .inLine | .sending _ | .crediting _ => true
  | _ => false

namespace Call

/-- The call is a write on the connection that has asked for the lock and not given it back. -/
def UsesLock (n : Nat) (c : Call) : Prop :=
  match c.stage with
  | .inLine | .sending _ | .crediting _ => ∃ data, c.request = .write n data
  | _ => False

theorem usesLock_iff {n : Nat} {c : Call} :
    c.UsesLock n ↔ c.stage.isWriting = true ∧ ∃ data, c.request = .write n data := by
  unfold UsesLock
  cases c.stage <;> simp [CallStage.isWriting]

theorem not_usesLock {c : Call} (h : c.stage.isWriting = false) (n : Nat) : ¬ c.UsesLock n := fun hn =>
  Bool.eq_false_iff.1 h (usesLock_iff.1 hn).1

theorem UsesLock.request_eq {n : Nat} {c : Call} (h : c.UsesLock n) : ∃ data, c.request = .write n data :=
  (usesLock_iff.1 h).2

theorem isWriting_of_isCancellable {c : Call} (h : c.isCancellable = true) : c.stage.isWriting = false := by
  unfold isCancellable at h
  cases hs : c.stage <;> rw [hs] at h <;> first | rfl | cases h

theorem isWriting_of_isOver {c : Call} (h : c.isOver = true) : c.stage.isWriting = false := by
  unfold isOver at h
  cases hs : c.stage <;> rw [hs] at h <;> first | rfl | cases h

/-- The call is one that can be at its stage, on one of the first `bound` connections. -/
structure Fits (bound : Nat) (c : Call) : Prop where
  aimed : ∀ n, c.request.conn? = some n → n < bound
  suits :
    match c.stage with
    | .reading => ∃ n want, c.request = .read n want
    | .inLine | .sending _ | .crediting _ => ∃ n, c.UsesLock n
    | _ => True

end Call

namespace Session

/-- The place where a call waits for a change. -/
def Parked (k : Nat) (c : Call) (s : Session) : Prop :=
  match c.stage with
  | .answering _ _ | .accepting => s.closed = false
  | .reading => ∃ n d, c.request.conn? = some n ∧ s.conns[n]? = some d ∧
      .call k ∈ d.inflow.signal.asleep
  | .inLine => ∃ n d, c.request.conn? = some n ∧ s.conns[n]? = some d ∧ k ∈ d.writeLock.line
  | .crediting _ => ∃ n d, c.request.conn? = some n ∧ s.conns[n]? = some d ∧
      .call k ∈ d.outflow.signal.asleep
  | _ => False

/-- Every lock that the call uses has it as a member. -/
def Lined (k : Nat) (c : Call) (s : Session) : Prop :=
  ∀ n, c.UsesLock n → ∃ d : Conn, s.conns[n]? = some d ∧ k ∈ d.writeLock.members

/-- No write lock has the call as a member. -/
def Free (k : Nat) (s : Session) : Prop :=
  ∀ (n : Nat) (d : Conn), s.conns[n]? = some d → k ∉ d.writeLock.members

/-- The call has ended, will run, or waits for a change. -/
structure Rests (k : Nat) (c : Call) (s : Session) : Prop where
  place : c.isOver = true ∨ .call k ∈ s.ready ∨ s.Parked k c
  lined : s.Lined k c

/-- All calls rest but those that are `away`, and all connections are thrifty but the one in `debt`. -/
structure Tended (away : Nat → Prop) (debt : Option Nat) (s : Session) : Prop where
  calm : ∀ (n : Nat) (c : Conn), s.conns[n]? = some c → c.Calm
  thrifty : ∀ (n : Nat) (c : Conn), s.conns[n]? = some c → debt ≠ some n → c.closed = false → c.closing = false →
    c.inflow.state.Thrifty s.settings.maxSegment
  rests : ∀ (k : Nat) (c : Call), s.calls[k]? = some c → ¬ away k → s.Rests k c
  fits : ∀ (k : Nat) (c : Call), s.calls[k]? = some c → c.Fits s.conns.length
  members : ∀ (n : Nat) (d : Conn) (k : Nat), s.conns[n]? = some d → k ∈ d.writeLock.members →
    ∃ c, s.calls[k]? = some c ∧ c.UsesLock n

variable {away away' : Nat → Prop} {debt : Option Nat} {s s' : Session}

/-- A change that touches no connection and no call, and sends nobody to sleep. -/
theorem Rests.frame {k : Nat} {c : Call} (h : s.Rests k c) (hn : s'.conns = s.conns)
    (hc : s'.closed = s.closed) (hr : s.ready ⊆ s'.ready) : s'.Rests k c := by
  obtain ⟨hplace, hlined⟩ := h
  refine ⟨?_, by unfold Lined; rw [hn]; exact hlined⟩
  rcases hplace with h | h | h
  · exact .inl h
  · exact .inr (.inl (hr h))
  · refine .inr (.inr ?_)
    unfold Parked at h ⊢
    rw [hn, hc]
    exact h

/-- A call that uses no lock. -/
theorem Lined.free {k : Nat} {c : Call} (h : ∀ n, ¬ c.UsesLock n) : s.Lined k c := fun n hn =>
  absurd hn (h n)

theorem mem_ready_wake {fibers : List Fiber} {f : Fiber} :
    f ∈ (s.wake fibers).ready ↔ f ∈ s.ready ∨ f ∈ fibers := mem_joinLine

/-! ### A connection that changes -/

theorem mem_ready_changeConn {n : Nat} {change : Conn → Conn × List Fiber} {f : Fiber}
    (hf : f ∈ s.ready) : f ∈ (s.changeConn n change).ready := by
  unfold changeConn
  split
  · exact hf
  · exact mem_ready_wake.2 (.inl hf)

theorem changeConn_getElem? (n m : Nat) (change : Conn → Conn × List Fiber) (s : Session) :
    (s.changeConn n change).conns[m]? =
      if n = m then (s.conns[n]?).map (fun c => (change c).1) else s.conns[m]? := by
  unfold changeConn
  rcases hn : s.conns[n]? with _ | c
  · by_cases hm : n = m
    · subst hm; simp [hn]
    · simp [hm]
  · obtain ⟨hlt, -⟩ := List.getElem?_eq_some_iff.1 hn
    show (s.conns.set n (change c).1)[m]? = _
    rw [List.getElem?_set]
    by_cases hm : n = m
    · subst hm; simp [hlt]
    · simp [hm]

theorem length_changeConn (n : Nat) (change : Conn → Conn × List Fiber) (s : Session) :
    (s.changeConn n change).conns.length = s.conns.length := by
  unfold changeConn
  split
  · rfl
  · exact List.length_set

theorem calls_changeConn (n : Nat) (change : Conn → Conn × List Fiber) (s : Session) :
    (s.changeConn n change).calls = s.calls := by
  unfold changeConn
  split <;> rfl

theorem closed_changeConn (n : Nat) (change : Conn → Conn × List Fiber) (s : Session) :
    (s.changeConn n change).closed = s.closed := by
  unfold changeConn
  split <;> rfl

theorem settings_changeConn (n : Nat) (change : Conn → Conn × List Fiber) (s : Session) :
    (s.changeConn n change).settings = s.settings := by
  unfold changeConn
  split <;> rfl

namespace Tended

theorem frame (h : Tended away debt s) (hs : s'.settings = s.settings) (hn : s'.conns = s.conns)
    (hk : s'.calls = s.calls) (hc : s'.closed = s.closed) (hr : s.ready ⊆ s'.ready) :
    Tended away debt s' where
  calm := by rw [hn]; exact h.calm
  thrifty := by rw [hn, hs]; exact h.thrifty
  rests k c hkc ha := (h.rests k c (hk ▸ hkc) ha).frame hn hc hr
  fits := by rw [hn, hk]; exact h.fits
  members := by rw [hn, hk]; exact h.members

/-- Who rests need not be away. -/
theorem back (h : Tended away debt s)
    (ha : ∀ k c, s.calls[k]? = some c → away k → away' k ∨ s.Rests k c) : Tended away' debt s :=
  { h with
    rests := fun k c hk hna => (Classical.em (away k)).elim
      (fun hka => (ha k c hk hka).resolve_left hna) (h.rests k c hk) }

theorem mono (h : Tended away debt s) (ha : ∀ k, away k → away' k) : Tended away' debt s :=
  h.back fun k _ _ hk => .inl (ha k hk)

/-! ### Frames -/

theorem note (h : Tended away debt s) (e : Event) : Tended away debt (s.note e) :=
  h.frame rfl rfl rfl rfl (List.Subset.refl _)

theorem wake (h : Tended away debt s) (fibers : List Fiber) : Tended away debt (s.wake fibers) :=
  h.frame rfl rfl rfl rfl fun _ hf => mem_ready_wake.2 (.inl hf)

theorem setTimer (h : Tended away debt s) (fiber : Fiber) : Tended away debt (s.setTimer fiber) :=
  h.frame rfl rfl rfl rfl (List.Subset.refl _)

theorem post (h : Tended away debt s) {out : Outgoing} (hp : s.post out = some s') :
    Tended away debt s' := by
  unfold Session.post at hp
  split at hp
  · cases hp
  · obtain ⟨⟨outbox, woken⟩, -, rfl⟩ := Option.map_eq_some_iff.1 hp
    have h' : Tended away debt ({ s with outbox } : Session) := h.frame rfl rfl rfl rfl (List.Subset.refl _)
    exact (h'.note _).wake _

theorem postOrDrop (h : Tended away debt s) (out : Outgoing) : Tended away debt (s.postOrDrop out) := by
  unfold Session.postOrDrop
  cases hp : s.post out with
  | none => exact h
  | some t => exact h.post hp

/-! ### Connections -/

/-- Who waits on a connection that changes goes on waiting or is woken. -/
theorem rests_changeConn {n k : Nat} {change : Conn → Conn × List Fiber} {call : Call}
    (h : s.Rests k call) (ha : ¬ away k)
    (hchange : ∀ c, s.conns[n]? = some c → Conn.Heeds away c (change c).1 (change c).2) :
    (s.changeConn n change).Rests k call := by
  have hwoken : ∀ c, s.conns[n]? = some c → ∀ f ∈ (change c).2, f ∈ (s.changeConn n change).ready := by
    intro c hc f hf
    unfold changeConn
    rw [hc]
    exact mem_ready_wake.2 (.inr hf)
  -- a place on the connection that changes is kept, or the change wakes the call
  have hplace {P : Conn → Prop} {m : Nat} {d : Conn} (hd : s.conns[m]? = some d) (hP : P d)
      (hstep : ∀ c, s.conns[n]? = some c → P c → P (change c).1 ∨ .call k ∈ (change c).2) :
      (∃ e, (s.changeConn n change).conns[m]? = some e ∧ P e) ∨
        .call k ∈ (s.changeConn n change).ready := by
    by_cases hm : n = m
    · subst hm
      rcases hstep d hd hP with hP | hk
      · exact .inl ⟨_, by rw [changeConn_getElem?, if_pos rfl, hd]; rfl, hP⟩
      · exact .inr (hwoken d hd _ hk)
    · exact .inl ⟨d, by rw [changeConn_getElem?, if_neg hm]; exact hd, hP⟩
  refine ⟨?_, fun m hm => ?_⟩
  · rcases h.place with hover | hready | hpark
    · exact .inl hover
    · exact .inr (.inl (mem_ready_changeConn hready))
    · unfold Parked at hpark ⊢
      split at hpark
      · exact .inr (.inr (by rwa [closed_changeConn]))
      · exact .inr (.inr (by rwa [closed_changeConn]))
      · obtain ⟨m, d, hreq, hd, hmem⟩ := hpark
        rcases hplace hd hmem fun c hc hk => (hchange c hc).readers k hk ha with ⟨e, he, hk⟩ | hk
        · exact .inr (.inr ⟨m, e, hreq, he, hk⟩)
        · exact .inr (.inl hk)
      · obtain ⟨m, d, hreq, hd, hmem⟩ := hpark
        rcases hplace hd hmem fun c hc hk => (hchange c hc).line k hk ha with ⟨e, he, hk⟩ | hk
        · exact .inr (.inr ⟨m, e, hreq, he, hk⟩)
        · exact .inr (.inl hk)
      · obtain ⟨m, d, hreq, hd, hmem⟩ := hpark
        rcases hplace hd hmem fun c hc hk => (hchange c hc).writers k hk ha with ⟨e, he, hk⟩ | hk
        · exact .inr (.inr ⟨m, e, hreq, he, hk⟩)
        · exact .inr (.inl hk)
      · exact absurd hpark id
  · obtain ⟨d, hd, hmem⟩ := h.lined m hm
    rw [changeConn_getElem?]
    split
    · rename_i hnm
      subst hnm
      exact ⟨_, by rw [hd]; rfl, (hchange d hd).members k hmem ha⟩
    · exact ⟨d, hd, hmem⟩

theorem changeConn (h : Tended away debt s) {n : Nat} {change : Conn → Conn × List Fiber}
    (hchange : ∀ c, s.conns[n]? = some c → Conn.Heeds away c (change c).1 (change c).2)
    (hsaves : ∀ c, s.conns[n]? = some c → debt ≠ some n →
      Conn.Saves s.settings.maxSegment c (change c).1)
    (hmembers : ∀ c k, s.conns[n]? = some c → k ∈ (change c).1.writeLock.members →
      k ∈ c.writeLock.members ∨ ∃ call, s.calls[k]? = some call ∧ call.UsesLock n) :
    Tended away debt (s.changeConn n change) where
  calm m d hd := by
    rw [changeConn_getElem?] at hd
    split at hd
    · obtain ⟨c, hc, rfl⟩ := Option.map_eq_some_iff.1 hd
      exact (hchange c hc).calm (h.calm n c hc)
    · exact h.calm m d hd
  thrifty m d hd hdebt hclosed hclosing := by
    rw [changeConn_getElem?] at hd
    rw [settings_changeConn]
    split at hd
    · rename_i hm
      subst hm
      obtain ⟨c, hc, rfl⟩ := Option.map_eq_some_iff.1 hd
      obtain ⟨h₁, h₂, hkeep⟩ := hsaves c hc hdebt hclosed hclosing
      exact hkeep (h.thrifty n c hc hdebt h₁ h₂)
    · exact h.thrifty m d hd hdebt hclosed hclosing
  rests k c hk ha := by
    rw [calls_changeConn] at hk
    exact rests_changeConn (h.rests k c hk ha) ha hchange
  fits k c hk := by
    rw [calls_changeConn] at hk
    rw [length_changeConn]
    exact h.fits k c hk
  members m d k hd hk := by
    rw [changeConn_getElem?] at hd
    rw [calls_changeConn]
    split at hd
    · rename_i hm
      subst hm
      obtain ⟨c, hc, rfl⟩ := Option.map_eq_some_iff.1 hd
      rcases hmembers c k hc hk with hk | hk
      · exact h.members n c k hc hk
      · exact hk
    · exact h.members m d k hd hk

/-- A change that leaves the lock alone. -/
theorem changeWindows (h : Tended away debt s) {n : Nat} {change : Conn → Conn × List Fiber}
    (hchange : ∀ c, s.conns[n]? = some c → Conn.Heeds away c (change c).1 (change c).2)
    (hsaves : ∀ c, s.conns[n]? = some c → debt ≠ some n →
      Conn.Saves s.settings.maxSegment c (change c).1)
    (hlock : ∀ c, (change c).1.writeLock = c.writeLock) : Tended away debt (s.changeConn n change) :=
  h.changeConn hchange hsaves fun c _ _ hk => .inl (hlock c ▸ hk)

theorem addConn (h : Tended away debt s) (id : Int32) (reply : Reply) :
    Tended away debt (s.addConn id reply).1 := by
  have hold {n : Nat} {c : Conn} (hc : s.conns[n]? = some c) :
      (s.conns ++ [.make s.settings id reply])[n]? = some c := by
    rw [List.getElem?_append_left (List.getElem?_eq_some_iff.1 hc).1, hc]
  have hcases {n : Nat} {c : Conn} (hc : (s.conns ++ [.make s.settings id reply])[n]? = some c) :
      s.conns[n]? = some c ∨ c = .make s.settings id reply := by
    rcases List.mem_append.1 (List.mem_of_getElem? hc) with hmem | hmem
    · rw [List.getElem?_append] at hc
      split at hc
      · exact .inl hc
      · exact .inr (List.mem_singleton.1 (List.mem_of_getElem? hc))
    · exact .inr (List.mem_singleton.1 hmem)
  refine ⟨fun n c hc => ?_, fun n c hc hdebt h₁ h₂ => ?_, fun k c hk ha => ?_, fun k c hk => ?_,
    fun n d k hd hk => ?_⟩
  · rcases hcases hc with hc | rfl
    · exact h.calm n c hc
    · exact Conn.calm_make ..
  · rcases hcases hc with hc | rfl
    · exact h.thrifty n c hc hdebt h₁ h₂
    · exact .inl rfl
  · obtain ⟨hplace, hlined⟩ := h.rests k c hk ha
    refine ⟨?_, fun n hn => (hlined n hn).imp fun d ⟨hd, hm⟩ => ⟨hold hd, hm⟩⟩
    rcases hplace with h | h | h
    · exact .inl h
    · exact .inr (.inl h)
    · refine .inr (.inr ?_)
      unfold Parked at h ⊢
      split at h
      · exact h
      · exact h
      · exact h.imp fun n => .imp fun d ⟨hreq, hd, hm⟩ => ⟨hreq, hold hd, hm⟩
      · exact h.imp fun n => .imp fun d ⟨hreq, hd, hm⟩ => ⟨hreq, hold hd, hm⟩
      · exact h.imp fun n => .imp fun d ⟨hreq, hd, hm⟩ => ⟨hreq, hold hd, hm⟩
      · exact h
  · have hf := h.fits k c hk
    refine { hf with aimed := fun n hn => ?_ }
    have hlt := hf.aimed n hn
    have hlen : (s.addConn id reply).1.conns.length = s.conns.length + 1 := List.length_append
    omega
  · rcases hcases hd with hd | rfl
    · exact h.members n d k hd hk
    · cases hk

/-! ### Calls -/

/-- The call that has the turn changes; afterwards it may be back in its place. -/
theorem modifyCall (h : Tended away debt s) {k : Nat} {change : Call → Call}
    (hback : ∀ j, j ≠ k → away j → away' j)
    (hfits : ∀ c, s.calls[k]? = some c → (change c).Fits s.conns.length)
    (hlock : ∀ (n : Nat) (d : Conn) (c : Call), s.conns[n]? = some d → k ∈ d.writeLock.members → s.calls[k]? = some c →
      (change c).UsesLock n)
    (hrest : ¬ away' k → ∀ c, s.calls[k]? = some c → s.Rests k (change c)) :
    Tended away' debt ({ s with calls := s.calls.modify k change } : Session) := by
  have hget (j : Nat) : (s.calls.modify k change)[j]? =
      (s.calls[j]?).map fun c => if k = j then change c else c := by
    rw [List.getElem?_modify]
    by_cases hj : k = j <;> simp [hj]
  refine ⟨h.calm, h.thrifty, fun j c hj ha => ?_, fun j c hj => ?_, fun n d j hd hj => ?_⟩
  · rw [hget] at hj
    obtain ⟨b, hb, rfl⟩ := Option.map_eq_some_iff.1 hj
    by_cases hkj : k = j
    · subst hkj
      rw [if_pos rfl]
      exact (hrest ha b hb).frame rfl rfl (List.Subset.refl _)
    · rw [if_neg hkj]
      exact (h.rests j b hb fun hj => ha (hback j (Ne.symm hkj) hj)).frame rfl rfl (List.Subset.refl _)
  · rw [hget] at hj
    obtain ⟨b, hb, rfl⟩ := Option.map_eq_some_iff.1 hj
    by_cases hkj : k = j
    · subst hkj
      rw [if_pos rfl]
      exact hfits b hb
    · rw [if_neg hkj]
      exact h.fits j b hb
  · obtain ⟨b, hb, huses⟩ := h.members n d j hd hj
    rw [hget, hb]
    refine ⟨_, rfl, ?_⟩
    dsimp only
    by_cases hkj : k = j
    · subst hkj
      rw [if_pos rfl]
      exact hlock n d b hd hj hb
    · rw [if_neg hkj]
      exact huses

/-- A call that uses no lock is in none. -/
theorem free (h : Tended away debt s) {k : Nat} {c : Call} (hc : s.calls[k]? = some c)
    (hno : ∀ n, ¬ c.UsesLock n) : s.Free k := fun n d hd hk => by
  obtain ⟨b, hb, huses⟩ := h.members n d k hd hk
  rw [hc] at hb
  cases hb
  exact hno n huses

/-- A call that is in no lock reaches another stage. -/
theorem setStage (h : Tended away debt s) {k : Nat} {stage : CallStage}
    (hback : ∀ j, j ≠ k → away j → away' j)
    (hfits : ∀ c, s.calls[k]? = some c → ({ c with stage } : Call).Fits s.conns.length)
    (hfree : s.Free k)
    (hrest : ¬ away' k → ∀ c, s.calls[k]? = some c → s.Rests k { c with stage }) :
    Tended away' debt (s.setStage k stage) :=
  h.modifyCall hback hfits (fun n d _ hd hk _ => absurd hk (hfree n d hd)) hrest

/-- A call that is in no lock ends. -/
theorem endStage (h : Tended away debt s) {k : Nat} (hback : ∀ j, j ≠ k → away j → away' j)
    (hfree : s.Free k) {stage : CallStage}
    (hover : (Call.mk .accept stage false).isOver = true) : Tended away' debt (s.setStage k stage) := by
  have hstage : (∃ outcome, stage = .over outcome) ∨ stage = .dropped := by
    cases stage <;> first | exact .inl ⟨_, rfl⟩ | exact .inr rfl | cases hover
  refine h.setStage hback (fun c hc => ⟨(h.fits k c hc).aimed, ?_⟩) hfree
    fun _ c _ => ⟨.inl ?_, .free (Call.not_usesLock (Call.isWriting_of_isOver hover))⟩
  · rcases hstage with ⟨outcome, rfl⟩ | rfl <;> trivial
  · rcases hstage with ⟨outcome, rfl⟩ | rfl <;> rfl

/-! ### The end of connections and sessions -/

theorem shutConn (h : Tended away debt s) (n : Nat) : Tended away debt (s.shutConn n) := by
  have hface (c : Conn) : c.shutdown.1.closed = true ∧ c.shutdown.1.writeLock = c.writeLock := by
    unfold Conn.shutdown
    dsimp only
    split <;> exact ⟨rfl, rfl⟩
  refine h.changeWindows (fun c _ => Conn.heeds_shutdown c) (fun c _ _ hc => ?_) fun c => (hface c).2
  rw [(hface c).1] at hc
  cases hc

theorem foldl_shutConn (h : Tended away debt s) (conns : List Nat) :
    Tended away debt (conns.foldl (fun s n => s.shutConn n) s) := by
  induction conns generalizing s with
  | nil => exact h
  | cons n conns ih => exact ih (h.shutConn n)

theorem closeConn (h : Tended away debt s) (n : Nat) : Tended away debt (s.closeConn n) := by
  unfold Session.closeConn
  split
  · exact h
  · split
    · exact h
    · have hclose : Tended away debt
          (s.changeConn n fun c => { c with closed := true }.stopWindows) :=
        h.changeWindows (fun c _ => Conn.heeds_close c) (fun c _ _ hc => by cases hc) fun _ => rfl
      dsimp only
      split
      · exact hclose.frame rfl rfl rfl rfl (List.Subset.refl _)
      · exact (hclose.postOrDrop _).frame rfl rfl rfl rfl (List.Subset.refl _)

theorem stopOutbox (h : Tended away debt s) : Tended away debt s.stopOutbox := by
  unfold Session.stopOutbox
  refine Tended.wake ?_ _
  exact h.frame rfl rfl rfl rfl (List.Subset.refl _)

theorem stopStaged (h : Tended away debt s) : Tended away debt s.stopStaged := by
  unfold Session.stopStaged
  refine Tended.foldl_shutConn (Tended.wake ?_ _) _
  exact h.frame rfl rfl rfl rfl (List.Subset.refl _)

theorem foldl_calls (conns : List Nat) (s : Session) :
    (conns.foldl (fun s n => s.shutConn n) s).calls = s.calls := by
  induction conns generalizing s with
  | nil => rfl
  | cons n conns ih => exact (ih _).trans (calls_changeConn ..)

theorem mem_cancellable {k : Nat} {c : Call} (hc : s.calls[k]? = some c) (hcan : c.isCancellable = true) :
    .call k ∈ s.cancellable := by
  refine List.mem_append_right _ (List.mem_filterMap.2 ⟨k, ?_, ?_⟩)
  · exact List.mem_range.2 (List.getElem?_eq_some_iff.1 hc).1
  · simp [hc, hcan]

/-- The end of the session wakes the calls on it: until then they are away from their places. -/
theorem close (h : Tended away debt s) : Tended away debt s.close := by
  unfold Session.close
  split
  · exact h
  · rename_i hrunning
    dsimp only
    refine Tended.stopStaged (Tended.stopOutbox ?_)
    -- a call that neither has a place in a line nor is one on the session does not see the end
    let waits (k : Nat) : Prop := ∃ c, s.calls[k]? = some c ∧ c.isCancellable = true
    have hends : Tended (fun k => away k ∨ waits k) debt
        ({ s with closed := true, registry := s.registry.close.1 } : Session) := by
      refine ⟨h.calm, h.thrifty, fun k c hk ha => ?_, h.fits, h.members⟩
      obtain ⟨hplace, hlined⟩ := h.rests k c hk fun hka => ha (.inl hka)
      refine ⟨?_, hlined⟩
      rcases hplace with hr | hr | hr
      · exact .inl hr
      · exact .inr (.inl hr)
      · have hno : ¬ c.isCancellable = true := fun hcan => ha (.inr ⟨c, hk, hcan⟩)
        refine .inr (.inr ?_)
        unfold Parked at hr ⊢
        unfold Call.isCancellable at hno
        cases hstage : c.stage <;> rw [hstage] at hno hr <;> first | exact hr | exact absurd rfl hno
    have hcalls := foldl_calls s.registry.close.2
      (({ s with closed := true, registry := s.registry.close.1 } : Session).note .closed)
    have hshut := (hends.note .closed).foldl_shutConn s.registry.close.2
    generalize s.registry.close.2.foldl (fun (s : Session) n => s.shutConn n) _ = t at hcalls hshut ⊢
    refine (hshut.wake _).back fun k c hk ha => ?_
    rcases ha with ha | ⟨b, hb, hcan⟩
    · exact .inl ha
    · have hbc : b = c := Option.some.inj (hb.symm.trans (hcalls.symm ▸ hk))
      subst hbc
      exact .inr ⟨.inr (.inl (mem_ready_wake.2 (.inr (mem_cancellable hk hcan)))),
        .free (Call.not_usesLock (Call.isWriting_of_isCancellable hcan))⟩

theorem reap (h : Tended away debt s) : Tended away debt s.reap := by
  unfold Session.reap
  split
  · exact h
  · exact h.close

theorem finish (h : Tended away debt s) {k : Nat} (hback : ∀ j, j ≠ k → away j → away' j)
    (hfree : s.Free k) (outcome : Outcome) :
    Tended away' debt (s.finish k outcome) :=
  ((h.endStage hback hfree rfl).note _).reap

end Tended

end Session

end StreamMux
