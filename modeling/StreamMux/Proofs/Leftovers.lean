import StreamMux.Proofs.Reception

/-! Readers that sleep beside unread bytes. A segment wakes one reader, and a reader that takes only a part of
it wakes nobody for the rest. So a reader may sleep on while bytes are unread, but no more segments are left
then than readers fell short of one since somebody began to wait, and rings were lost: a reader looks at the
window and then goes to sleep, and while two readers stand between the two a second segment wakes nobody. None
is left where readers take whole segments and one at a time stands there, or where one reads alone, and nobody
sleeps at a window that is stopped. -/

namespace StreamMux

namespace Signal

variable {κ : Type} {s s' : Signal κ} {k : κ}

/-- Nobody but `k` sleeps, is about to, or is woken. -/
def Only (k : κ) (s : Signal κ) : Prop := ∀ x ∈ s.callers, x = k

theorem Only.of_subset (h : s.Only k) (hsub : s'.callers ⊆ s.callers) : s'.Only k :=
  fun x hx => h x (hsub hx)

/-- While one call is woken, another one would have to wait. -/
theorem Only.idle_of_woken (h : s.Only k) (hs : s.Apart) (hne : s.woken ≠ []) : s.Idle := by
  obtain ⟨w, hw⟩ := List.exists_mem_of_ne_nil _ hne
  have hw : w.1 ∈ s.woken.map (·.1) := List.mem_map_of_mem hw
  have hnobody : s.asleep ++ s.wary = [] := by
    by_contra hsome
    obtain ⟨x, hx⟩ := List.exists_mem_of_ne_nil _ hsome
    have hsame : x = w.1 :=
      (h x (List.mem_append_left _ hx)).trans (h w.1 (List.mem_append_right _ hw)).symm
    exact (List.nodup_append.1 hs).2.2 x hx w.1 hw hsame
  exact List.append_eq_nil_iff.1 hnobody

end Signal

namespace ReceiveWindow

variable {w w' : ReceiveWindow} {want : Want}

/-- Who waits has passed over all segments. -/
theorem segments_of_serve_none (hs : w.serve want = (w', none)) : w'.segments = [] := by
  match want with
  | .bytes 0 => cases hs
  | .bytes (size + 1) => cases servesBytes_of_serve size.succ_pos hs with | waits => rfl
  | .segment => cases servesSegment_of_serve hs with | waits _ spent => exact spent

/-- Nobody brings segments by reading. -/
theorem length_segments_of_serve {answer : Option Taken} (hs : w.serve want = (w', answer)) :
    w'.segments.length ≤ w.segments.length := by
  obtain ⟨gone, hgone, hleft | ⟨data, left, part, rest, hfront, hleft⟩⟩ := segments_of_serve hs
  · rw [hleft, List.length_drop]
    omega
  · have hlength := congrArg List.length hfront
    rw [hleft]
    simp only [List.length_drop, List.length_cons] at hlength ⊢
    omega

end ReceiveWindow

namespace Reception

variable {κ : Type} [DecidableEq κ] {r : Reception κ} {k : κ} {n m : Nat}

/-! ### What an act does to those who wait -/

omit [DecidableEq κ] in
/-- A segment that is taken wakes one reader. -/
theorem signal_write (id : Int32) (data : Bytes) (part : Bool) (r : Reception κ) :
    ((r.write id data part).signal = r.signal ∧ (r.write id data part).window = r.window) ∨
    ((r.write id data part).signal = r.signal.ringOne.1 ∧ r.window.stopped = false ∧
      (r.write id data part).window.stopped = false ∧
      (r.write id data part).window.segments.length = r.window.segments.length + 1) := by
  rcases hcopy : r.stock.pool.copy data with ⟨pool, b⟩
  rcases hwrite : r.stock.inflow.state.write id b.bytes part with cause | window
  · left
    simp [write, signal, Reception.window, Stock.write, Inflow.write, hcopy, hwrite, Except.map]
  · right
    have hwindow : r.stock.inflow.state.stopped = false ∧ window.stopped = false ∧
        window.segments.length = r.stock.inflow.state.segments.length + 1 := by
      unfold ReceiveWindow.write at hwrite
      split at hwrite
      · cases hwrite
      · rename_i hrunning
        split at hwrite <;> cases hwrite
        exact ⟨by simpa using hrunning, by simpa using hrunning, List.length_append⟩
    simpa [write, signal, Reception.window, Stock.write, Inflow.write, hcopy, hwrite, Except.map,
      Monitor.tellOne] using hwindow

omit [DecidableEq κ] in
theorem inflow_letGo (i : Nat) (s : Stock κ) : (s.letGo i).inflow = s.inflow := by
  unfold Stock.letGo
  split <;> rfl

omit [DecidableEq κ] in
theorem segments_takeCredit (threshold : Nat) (r : Reception κ) :
    (r.takeCredit threshold).signal = r.signal ∧
      (r.takeCredit threshold).window.segments = r.window.segments ∧
      (r.takeCredit threshold).window.stopped = r.window.stopped := by
  unfold takeCredit Stock.takeCredit Inflow.takeCredit ReceiveWindow.takeCredit signal window
  dsimp only
  split <;> exact ⟨rfl, rfl, rfl⟩

/-! ### Readers that fall short, and rings that are lost -/

/-- A reader that was woken alone leaves as many segments as there were: it took a part of one. -/
def Short (r : Reception κ) (k : κ) (next : Reception κ) : Prop :=
  (k, Ring.one) ∈ r.signal.woken ∧ r.window.segments ≠ [] ∧
    next.window.segments.length = r.window.segments.length

def FallsShort (r : Reception κ) : Act κ → Prop
  | .take k want => r.Short k (r.take k want)
  | .look k want => r.Short k (r.look k want)
  | _ => False

instance (r : Reception κ) : (a : Act κ) → Decidable (r.FallsShort a)
  | .take _ _ | .look _ _ => inferInstanceAs (Decidable (_ ∧ _ ∧ _))
  | .write .. | .settle _ | .leave _ | .letGo _ | .takeCredit _ | .stop => inferInstanceAs (Decidable False)

/-- A ring is lost by an act: a segment comes, or a reader goes away that was woken for one, and nobody hears
the ring. -/
def Misses (r : Reception κ) : Act κ → Prop
  | .write id data part =>
    r.window.segments.length < (r.write id data part).window.segments.length ∧ r.signal.Deaf
  | .leave k => (k, Ring.one) ∈ r.signal.woken ∧ r.signal.Deaf
  | _ => False

instance (r : Reception κ) : (a : Act κ) → Decidable (r.Misses a)
  | .write .. | .leave _ => inferInstanceAs (Decidable (_ ∧ _))
  | .take .. | .look .. | .settle _ | .letGo _ | .takeCredit _ | .stop => inferInstanceAs (Decidable False)

/-- How many readers have fallen short in a run, if `n` had before, since nobody slept or was about to. -/
def shortfalls (n : Nat) (r : Reception κ) (acts : List (Act κ)) : Nat :=
  Signal.tally act (·.signal.Idle) FallsShort n r acts

/-- How many rings are lost in a run, if `n` were before, since nobody slept or was about to. -/
def missed (n : Nat) (r : Reception κ) (acts : List (Act κ)) : Nat :=
  Signal.tally act (·.signal.Idle) Misses n r acts

/-- An act for which a segment may be left that nobody was woken for. -/
def Loses (r : Reception κ) (a : Act κ) : Prop := r.FallsShort a ∨ r.Misses a

instance (r : Reception κ) (a : Act κ) : Decidable (r.Loses a) := inferInstanceAs (Decidable (_ ∨ _))

theorem not_misses_of_fallsShort (r : Reception κ) (a : Act κ) (h : r.FallsShort a) : ¬ r.Misses a := by
  cases a with
  | take | look => exact id
  | _ => exact absurd h id

theorem shortfalls_add_missed (r : Reception κ) (acts : List (Act κ)) :
    Signal.tally act (·.signal.Idle) Loses 0 r acts = r.shortfalls 0 acts + r.missed 0 acts :=
  Signal.tally_or not_misses_of_fallsShort 0 0

/-- While somebody sleeps, each segment but `n` has a reader that was woken for it. -/
def Awaited (n : Nat) (r : Reception κ) : Prop :=
  r.signal.Attended (r.window.stopped = true) (r.window.segments.length - n)

omit [DecidableEq κ] in
theorem Awaited.mono (h : r.Awaited n) (hle : n ≤ m) : r.Awaited m :=
  Signal.Attended.quiet h id fun _ => Nat.sub_le_sub_left hle _

/-- A reader leaves the window in order if it pauses at an empty one as it should. -/
theorem Awaited.of_reads {want : Want} {pause : Signal κ → Signal κ} {next : Reception κ} (h : r.Awaited n)
    (hreads : r.Reads k want pause next)
    (hpause : k ∉ r.signal.asleep → ∀ {stopped due}, stopped = false → due = 0 →
      (pause (r.signal.rise k)).Attended (stopped = true) due)
    (hle : n ≤ m) (hshort : r.Short k next → n < m) : next.Awaited m := by
  unfold Awaited
  rcases hreads.served with ⟨-, hwindow, hsignal, -⟩ | ⟨answer, hawake, hserve, -, hsignal⟩
  · rw [hsignal, hwindow]
    exact h.mono hle
  · have hstopped := ReceiveWindow.stopped_of_serve hserve
    have hlength := ReceiveWindow.length_segments_of_serve hserve
    cases answer with
    | none =>
      have hrunning := (ReceiveWindow.of_serve_none hserve).1
      have hsegments := ReceiveWindow.segments_of_serve_none hserve
      rw [hsignal]
      refine hpause hawake (hstopped.trans hrunning) ?_
      rw [hsegments, List.length_nil, Nat.zero_sub]
    | some taken =>
      rw [hsignal, hstopped]
      dsimp only [Option.isSome_some]
      rw [if_pos rfl]
      by_cases hk : (k, Ring.one) ∈ r.signal.woken
      · -- The reader was woken for a segment: one at least is gone, or it falls short.
        refine h.rise k id fun _ => ?_
        by_cases hgone : next.window.segments.length < r.window.segments.length
        · omega
        · by_cases hnone : r.window.segments = []
          · rw [hnone, List.length_nil] at hlength
            omega
          · have := hshort ⟨hk, hnone, by omega⟩
            omega
      · refine h.rise_unwoken hk id ?_
        omega

omit [DecidableEq κ] in
theorem Awaited.write (h : r.Awaited n) (id : Int32) (data : Bytes) (part : Bool) (hle : n ≤ m)
    (hmisses : r.Misses (.write id data part) → n < m) : (r.write id data part).Awaited m := by
  unfold Awaited
  rcases signal_write id data part r with ⟨hsignal, hwindow⟩ | ⟨hsignal, running, running', hlength⟩
  · rw [hsignal, hwindow]
    exact h.mono hle
  · rw [hsignal, running']
    refine h.ringOne (fun hstopped => by cases hstopped) (by omega) fun hdeaf => ?_
    have := hmisses ⟨by omega, hdeaf⟩
    omega

theorem Awaited.leave (h : r.Awaited n) (k : κ) (hle : n ≤ m) (hmisses : r.Misses (.leave k) → n < m) :
    (r.act (.leave k)).Awaited m := by
  refine Signal.Attended.leave h k (Nat.sub_le_sub_left hle _) fun hdeaf hwoken => ?_
  have := hmisses ⟨hwoken, hdeaf⟩
  show r.window.segments.length - _ ≤ _
  omega

theorem Awaited.act {a : Act κ} (h : r.Awaited n) (hle : n ≤ m) (hloses : r.Loses a → n < m) :
    (r.act a).Awaited m := by
  cases a with
  | write id data part => exact h.write id data part hle fun hmisses => hloses (.inr hmisses)
  | take k want =>
    refine h.of_reads (reads k want r) (fun hawake _ _ running hdue => ?_) hle fun hshort => hloses (.inl hshort)
    exact Signal.Attended.sleep h hawake (by simp [running]) hdue
  | look k want =>
    refine h.of_reads (looks k want r) (fun hawake _ _ running hdue => ?_) hle fun hshort => hloses (.inl hshort)
    exact Signal.Attended.hesitate h hawake (by simp [running]) hdue
  | settle k =>
    have hsettled : (r.act (.settle k)).Awaited n := Signal.Attended.settle h k
    exact hsettled.mono hle
  | leave k => exact h.leave k hle fun hmisses => hloses (.inr hmisses)
  | letGo i =>
    show (Reception.Awaited m { r with stock := r.stock.letGo i })
    unfold Awaited signal window
    rw [inflow_letGo]
    exact h.mono hle
  | takeCredit threshold =>
    show (r.takeCredit threshold).Awaited m
    obtain ⟨hsignal, hsegments, hstopped⟩ := segments_takeCredit threshold r
    unfold Awaited
    rw [hsignal, hsegments, hstopped]
    exact h.mono hle
  | stop => exact Signal.Attended.ringBoth h _ _

theorem Awaited.after (h : r.Awaited 0) (acts : List (Act κ)) :
    (r.after acts).Awaited (r.shortfalls 0 acts + r.missed 0 acts) := by
  rw [← shortfalls_add_missed]
  refine Signal.tally_keeps (P := Awaited) Awaited.act (fun h hidle => ?_) h acts
  exact .of_idle h.apart hidle _ _

/-- Once every woken reader has run, in whatever order, no reader is woken any more. -/
theorem woken_after_takes (h : r.Awaited n) {order : List (κ × Want)}
    (hall : ∀ w ∈ r.signal.woken, w.1 ∈ order.map (·.1)) :
    (r.after (order.map fun x => .take x.1 x.2)).signal.woken = [] := by
  have hrun (r : Reception κ) (x : κ × Want) (h : ∃ n, r.Awaited n) : (∃ n, (r.take x.1 x.2).Awaited n) ∧
      ∀ w ∈ (r.take x.1 x.2).signal.woken, w ∈ r.signal.woken ∧ w.1 ≠ x.1 := by
    obtain ⟨n, h⟩ := h
    have htake : (r.act (.take x.1 x.2)).Awaited (n + 1) := h.act (Nat.le_succ n) fun _ => Nat.lt_succ_self n
    refine ⟨⟨n + 1, htake⟩, ?_⟩
    have hinflow : (r.take x.1 x.2).stock.inflow = (r.stock.inflow.take x.1 x.2).1 :=
      (r.stock.handOut_eq _ _).1
    rw [signal, hinflow]
    exact Monitor.woken_poll rfl h.apart
  unfold after
  rw [List.foldl_map]
  exact Signal.woken_of_all_run signal (·.1) hrun ⟨n, h⟩ hall

/-! ### Runs in which nothing is lost -/

/-- A reader that falls short is given something. -/
theorem Reads.given_of_short {want : Want} {pause : Signal κ → Signal κ} {next : Reception κ}
    (hreads : r.Reads k want pause next) (h : r.signal.Apart) (hshort : r.Short k next) :
    ∃ taken, r.window.serve want = (next.window, some taken) ∧ next.signal = r.signal.rise k := by
  obtain ⟨hwoken, hsome, hlength⟩ := hshort
  rcases hreads.served with ⟨hk, -⟩ | ⟨answer, -, hserve, -, hsignal⟩
  · exact absurd rfl ((h.not_mem_of_asleep hk).2 _ hwoken)
  · cases answer with
    | some taken => exact ⟨taken, hserve, hsignal⟩
    | none =>
      rw [ReceiveWindow.segments_of_serve_none hserve] at hlength
      exact absurd (List.length_eq_zero_iff.1 hlength.symm) hsome

/-- A reader of segments takes the segment it was woken for. -/
theorem Reads.not_short_of_segment {pause : Signal κ → Signal κ} {next : Reception κ}
    (hreads : r.Reads k .segment pause next) (h : r.signal.Apart) : ¬ r.Short k next := by
  intro hshort
  obtain ⟨taken, hserve, -⟩ := hreads.given_of_short h hshort
  obtain ⟨-, hsome, hlength⟩ := hshort
  generalize next.window = w at hserve hlength
  cases ReceiveWindow.servesSegment_of_serve hserve with
  | front segments =>
    rw [segments] at hlength
    simp [ReceiveWindow.consume] at hlength
  | ended _ spent => exact hsome spent

theorem shortfalls_of_segments {acts : List (Act κ)} (h : r.Awaited 0)
    (hacts : ∀ k size, .take k (.bytes size) ∉ acts ∧ .look k (.bytes size) ∉ acts) :
    r.shortfalls 0 acts = 0 := by
  refine Signal.tally_eq_zero fun before a hbefore _ => ?_
  have ha := hbefore.subset (List.mem_append_right _ (List.mem_singleton_self a))
  have hapart := (h.after before).apart
  show ¬ (r.after before).FallsShort a
  match a with
  | .take k (.bytes size) => exact absurd ha (hacts k size).1
  | .look k (.bytes size) => exact absurd ha (hacts k size).2
  | .take k .segment => exact (reads k .segment _).not_short_of_segment hapart
  | .look k .segment => exact (looks k .segment _).not_short_of_segment hapart
  | .write .. | .settle _ | .leave _ | .letGo _ | .takeCredit _ | .stop => exact id

/-- At no time more than one reader stands between its look and its sleep. -/
def OneLooks (r : Reception κ) (acts : List (Act κ)) : Prop :=
  ∀ before, before <+: acts → (r.after before).signal.wary.length ≤ 1

/-- Then no ring is lost. -/
theorem missed_of_oneLooks {acts : List (Act κ)} (h : r.OneLooks acts) : r.missed 0 acts = 0 := by
  refine Signal.tally_eq_zero fun before a hbefore _ hmisses => ?_
  have hone := h before ((List.prefix_append before [a]).trans hbefore)
  have hdeaf : (r.after before).signal.Deaf := by
    cases a with
    | write | leave => exact hmisses.2
    | take | look | settle | letGo | takeCredit | stop => exact absurd hmisses id
  exact absurd hdeaf.2.2 (Nat.not_le.2 (Nat.lt_succ_of_le hone))

/-- Only a look makes a reader stand there. -/
theorem wary_act {j : κ} {a : Act κ} (hj : j ∈ (r.act a).signal.wary) :
    j ∈ r.signal.wary ∨ ∃ want, a = .look j want := by
  cases a with
  | write id data part =>
    left
    have hwrite : (r.write id data part).signal.wary = r.signal.wary := by
      rcases signal_write id data part r with ⟨hsignal, -⟩ | ⟨hsignal, -⟩ <;> rw [hsignal]
      exact Signal.wary_ringOne _
    exact hwrite ▸ hj
  | take k want =>
    left
    have hj : j ∈ (r.take k want).signal.wary := hj
    rcases (reads k want r).served with ⟨-, -, hsignal, -⟩ | ⟨answer, -, -, -, hsignal⟩ <;> rw [hsignal] at hj
    · exact hj
    · split at hj <;> exact Signal.wary_rise_subset _ k hj
  | look k want =>
    have hj : j ∈ (r.look k want).signal.wary := hj
    rcases (looks k want r).served with ⟨-, -, hsignal, -⟩ | ⟨answer, -, -, -, hsignal⟩ <;> rw [hsignal] at hj
    · exact .inl hj
    · split at hj
      · exact .inl (Signal.wary_rise_subset _ k hj)
      · rcases List.mem_append.1 hj with hj | hj
        · exact .inl (Signal.wary_rise_subset _ k hj)
        · rw [List.mem_singleton.1 hj]
          exact .inr ⟨want, rfl⟩
  | settle k => exact .inl (Signal.wary_settle_subset _ k hj)
  | leave k => exact .inl (Signal.wary_leave_subset _ k hj)
  | letGo i =>
    have hj : j ∈ (r.stock.letGo i).inflow.signal.wary := hj
    rw [inflow_letGo] at hj
    exact .inl hj
  | takeCredit threshold => exact .inl ((segments_takeCredit threshold r).1 ▸ hj)
  | stop =>
    have hnobody := Signal.wary_ringBoth r.signal
    exact absurd (hnobody ▸ hj) (List.not_mem_nil)

/-- One reader at most stands there if all others run undisturbed. -/
theorem oneLooks_of_looker {acts : List (Act κ)} (h : r.Awaited 0) (hr : ∀ j ∈ r.signal.wary, j = k)
    (hacts : ∀ j want, .look j want ∈ acts → j = k) : r.OneLooks acts := by
  intro before hbefore
  have hwary : ∀ j ∈ (r.after before).signal.wary, j = k := by
    have hlooks : ∀ j want, .look j want ∈ before → j = k := fun j want hj => hacts j want (hbefore.subset hj)
    clear hbefore h
    induction before generalizing r with
    | nil => exact hr
    | cons a before ih =>
      refine ih (fun j hj => ?_) fun j want hj => hlooks j want (List.mem_cons_of_mem a hj)
      rcases wary_act hj with hj | ⟨want, rfl⟩
      · exact hr j hj
      · exact hlooks j want (List.mem_cons_self ..)
  have hsub : (r.after before).signal.wary ⊆ [k] := fun j hj => List.mem_singleton.2 (hwary j hj)
  exact (List.subperm_of_subset (h.after before).apart.nodup_wary hsub).length_le

/-- Nobody but `k` reads in the run. -/
def ReadBy (k : κ) (acts : List (Act κ)) : Prop :=
  ∀ j want, .take j want ∈ acts ∨ .look j want ∈ acts → j = k

theorem Reads.only {want : Want} {pause : Signal κ → Signal κ} {next : Reception κ}
    (hreads : r.Reads k want pause next) (h : r.signal.Only k)
    (hpause : List.Perm (pause (r.signal.rise k)).callers (k :: (r.signal.rise k).callers)) :
    next.signal.Only k := by
  have hrise : (r.signal.rise k).Only k := h.of_subset (Signal.callers_rise _ k).subset
  rcases hreads.served with ⟨-, -, hsignal, -⟩ | ⟨answer, -, -, -, hsignal⟩ <;> rw [hsignal]
  · exact h
  · split
    · exact hrise
    · intro x hx
      rcases List.mem_cons.1 (hpause.subset hx) with hx | hx
      · exact hx
      · exact hrise x hx

theorem only_act (h : r.signal.Only k) (hr : r.signal.Apart) {a : Act κ}
    (ha : ∀ j want, a = .take j want ∨ a = .look j want → j = k) : (r.act a).signal.Only k := by
  cases a with
  | write id data part =>
    show (r.write id data part).signal.Only k
    rcases signal_write id data part r with ⟨hsignal, -⟩ | ⟨hsignal, -⟩ <;> rw [hsignal]
    · exact h
    · exact h.of_subset (Signal.callers_ringOne _).subset
  | take j want =>
    obtain rfl := ha j want (.inl rfl)
    exact (reads j want r).only h (Signal.callers_sleep _ j)
  | look j want =>
    obtain rfl := ha j want (.inr rfl)
    exact (looks j want r).only h (Signal.callers_hesitate _ j)
  | settle j => exact h.of_subset (Signal.callers_settle hr j).subset
  | leave j => exact h.of_subset (Signal.callers_leave r.signal j).subset
  | letGo i =>
    show Signal.Only k (r.stock.letGo i).inflow.signal
    rw [inflow_letGo]
    exact h
  | takeCredit threshold =>
    show (r.takeCredit threshold).signal.Only k
    rw [(segments_takeCredit threshold r).1]
    exact h
  | stop => exact h.of_subset (Signal.callers_ringBoth r.signal).subset

theorem only_after {acts : List (Act κ)} (h : r.signal.Only k) (hr : r.Awaited n) (hacts : ReadBy k acts) :
    (r.after acts).signal.Only k := by
  induction acts generalizing r n with
  | nil => exact h
  | cons a acts ih =>
    refine ih (only_act h hr.apart fun j want ha => ?_) (hr.act (Nat.le_succ n) fun _ => Nat.lt_succ_self n)
      fun j want hj => ?_
    · rcases ha with rfl | rfl
      · exact hacts j want (.inl (List.mem_cons_self ..))
      · exact hacts j want (.inr (List.mem_cons_self ..))
    · exact hacts j want (hj.imp (List.mem_cons_of_mem a) (List.mem_cons_of_mem a))

/-- The only reader may fall short, but nobody waits then. -/
theorem Reads.idle_of_short {want : Want} {pause : Signal κ → Signal κ} {next : Reception κ}
    (hreads : r.Reads k want pause next) (h : r.signal.Apart) {x : κ} (honly : r.signal.Only x)
    (hshort : r.Short k next) : next.signal.Idle := by
  obtain ⟨taken, -, hsignal⟩ := hreads.given_of_short h hshort
  obtain ⟨hasleep, hwary⟩ := honly.idle_of_woken h (List.ne_nil_of_mem hshort.1)
  rw [hsignal]
  exact ⟨hasleep, List.eq_nil_of_subset_nil (hwary ▸ Signal.wary_rise_subset r.signal k)⟩

theorem shortfalls_of_readBy {acts : List (Act κ)} (h : r.Awaited 0) (honly : r.signal.Only k)
    (hacts : ReadBy k acts) : r.shortfalls 0 acts = 0 := by
  refine Signal.tally_eq_zero fun before a hbefore hsomebody hshort => hsomebody ?_
  have hread : ReadBy k before := fun j want hj =>
    have hsub := ((List.prefix_append before [a]).trans hbefore).subset
    hacts j want (hj.imp (@hsub _) (@hsub _))
  have honly := only_after honly h hread
  have hapart := (h.after before).apart
  rw [List.foldl_append]
  show ((r.after before).act a).signal.Idle
  cases a with
  | take j want => exact (reads j want _).idle_of_short hapart honly hshort
  | look j want => exact (looks j want _).idle_of_short hapart honly hshort
  | _ => exact absurd hshort id

omit [DecidableEq κ] in
/-- No segment is left beside a reader that sleeps if nobody else was ever woken. -/
theorem Awaited.segments_of_only (h : r.Awaited 0) (honly : r.signal.Only k) (hne : r.signal.asleep ≠ []) :
    r.window.segments = [] := by
  have hwoken : r.signal.woken = [] := by
    by_contra hsome
    exact hne (honly.idle_of_woken h.apart hsome).1
  have hlength := h.due_le (.inl hne)
  rw [Signal.alone_of_woken_nil hwoken] at hlength
  exact List.eq_nil_of_length_eq_zero (Nat.le_zero.1 hlength)

/-! ### Bytes beside a sleeping reader -/

omit [DecidableEq κ] in
/-- A segment that is taken wakes the reader that has slept longest. -/
theorem Sound.write_wakes {capacity others : Nat} {data : Bytes} {rest : List κ} (h : r.Sound capacity others)
    (id : Int32) (part : Bool) (hopen : r.window.stopped = false)
    (hfits : r.window.buffered + data.length ≤ capacity) (hasleep : r.signal.asleep = k :: rest) :
    (r.write id data part).signal.asleep = rest ∧ (k, Ring.one) ∈ (r.write id data part).signal.woken := by
  have hfull : ¬ r.stock.inflow.Refuses data := by
    rintro (hstopped | hlong)
    · exact absurd (hopen.symm.trans hstopped) (by simp)
    · have hsize : r.stock.inflow.state.capacity = capacity := h.size
      rw [hsize] at hlong
      exact Nat.not_lt.2 hfits hlong
  have hwindow := (write_of_not_refuses h.stock.tidy hfull id part).2.2.2
  have hsignal : (r.write id data part).signal = r.signal.ringOne.1 := by
    rcases signal_write id data part r with ⟨-, hsame⟩ | ⟨hsignal, -⟩
    · have hlonger := congrArg (·.segments.length) (hsame.symm.trans hwindow)
      simp at hlonger
    · exact hsignal
  rw [hsignal]
  unfold Signal.ringOne
  rw [hasleep]
  exact ⟨rfl, List.mem_append_right _ (List.mem_singleton_self _)⟩

/-- In a run of the readers of a window, of any number, with any buffers and in any order, with writes, the stop
and cancelled calls, nobody sleeps at a stopped window, and while somebody sleeps no more segments are left
than readers are woken that have not run, fell short of a segment, or missed a ring since somebody began to wait.
Once every woken reader has run, a byte is unread beside a sleeping one only if one fell short or a ring was
lost. None falls short where all take whole segments, no ring is lost while at no time more than one reader
stands between its look and its sleep, as where one at most is disturbed there, and a reader that is alone
never sleeps beside a segment. A segment that is taken wakes the reader that has slept longest. -/
theorem bytes_wait_only_behind_shortfalls {capacity bufferSize maxIdle others : Nat} {acts : List (Act κ)}
    (hr : (opened capacity bufferSize maxIdle others).after acts = r) :
    (r.signal.asleep ≠ [] → r.window.stopped = false ∧ r.window.segments.length ≤
      r.signal.alone + ((opened capacity bufferSize maxIdle others).shortfalls 0 acts +
        (opened capacity bufferSize maxIdle others).missed 0 acts)) ∧
    (∀ order : List (κ × Want), (∀ w ∈ r.signal.woken, w.1 ∈ order.map (·.1)) →
      (r.after (order.map fun x => .take x.1 x.2)).signal.woken = []) ∧
    (r.signal.woken = [] → r.signal.asleep ≠ [] → 0 < r.window.buffered →
      0 < (opened capacity bufferSize maxIdle others).shortfalls 0 acts ∨
        0 < (opened capacity bufferSize maxIdle others).missed 0 acts) ∧
    ((∀ k size, .take k (.bytes size) ∉ acts ∧ .look k (.bytes size) ∉ acts) →
      (opened capacity bufferSize maxIdle others).shortfalls 0 acts = 0) ∧
    ((opened capacity bufferSize maxIdle others).OneLooks acts →
      (opened capacity bufferSize maxIdle others).missed 0 acts = 0) ∧
    (∀ k, (∀ j want, .look j want ∈ acts → j = k) →
      (opened capacity bufferSize maxIdle others).OneLooks acts) ∧
    (∀ k, ReadBy k acts → r.signal.asleep ≠ [] → r.window.segments = []) ∧
    (∀ id data part k rest, r.window.stopped = false → r.window.buffered + data.length ≤ capacity →
      r.signal.asleep = k :: rest → (r.act (.write id data part)).signal.asleep = rest ∧
        (k, Ring.one) ∈ (r.act (.write id data part)).signal.woken) := by
  have hopened : (opened capacity bufferSize maxIdle others : Reception κ).Awaited 0 :=
    Signal.Attended.empty _ _
  have hnobody (k : κ) : ∀ j ∈ (opened capacity bufferSize maxIdle others).signal.wary, j = k :=
    fun j hj => by cases hj
  have h : r.Awaited _ := hr ▸ hopened.after acts
  have hsound : r.Sound capacity others := hr ▸ (sound_opened ..).after acts
  have hlength (hne : r.signal.asleep ≠ []) : r.window.segments.length ≤
      r.signal.alone + ((opened capacity bufferSize maxIdle others).shortfalls 0 acts +
        (opened capacity bufferSize maxIdle others).missed 0 acts) := by
    have := h.due_le (.inl hne)
    omega
  refine ⟨fun hne => ⟨by simpa using h.unripe (.inl hne), hlength hne⟩, fun order => woken_after_takes h,
    fun hwoken hne hbytes => ?_, shortfalls_of_segments hopened, missed_of_oneLooks,
    fun k => oneLooks_of_looker hopened (hnobody k), fun k hread hne => ?_,
    fun id data part k rest => hsound.write_wakes id part⟩
  · have hsegments := hlength hne
    rw [Signal.alone_of_woken_nil hwoken, Nat.zero_add] at hsegments
    have hsome : 0 < r.window.segments.length := by
      have hcounted := hsound.counted
      unfold ReceiveWindow.Counted at hcounted
      rw [List.length_pos_iff]
      intro hnone
      rw [hnone] at hcounted
      exact absurd hcounted hbytes.ne'
    omega
  · have honly : (opened capacity bufferSize maxIdle others).signal.Only k := fun x hx => by cases hx
    have hmissed := missed_of_oneLooks (oneLooks_of_looker hopened (hnobody k) fun j want hj =>
      hread j want (.inr hj))
    rw [shortfalls_of_readBy hopened honly hread, hmissed] at h
    exact h.segments_of_only (hr ▸ only_after honly hopened hread) hne

/-- Two readers for one byte each fall asleep, two bytes are written, and the reader that is woken takes its
one. -/
def sharedSegment : List (Act Nat) :=
  [.take 0 (.bytes 1), .take 1 (.bytes 1), .write 1 [104, 105] false, .take 0 (.bytes 1)]

/-- The other reader sleeps on beside the second byte, and nobody is woken. -/
theorem second_reader_sleeps_beside_byte :
    ((opened 8 4096 4 0).after sharedSegment).signal = { asleep := [1] } ∧
    ((opened 8 4096 4 0).after sharedSegment).window.buffered = 1 ∧
    ((opened 8 4096 4 0).after sharedSegment).window.stopped = false ∧
    0 < (opened 8 4096 4 0).shortfalls 0 sharedSegment := by
  obtain ⟨hasleep, -, hbeside, -, hmissed, hlooks, -⟩ :=
    bytes_wait_only_behind_shortfalls (r := (opened 8 4096 4 0).after sharedSegment) rfl
  have hone : (opened 8 4096 4 0).OneLooks sharedSegment :=
    hlooks 0 fun j want hj => by simp [sharedSegment] at hj
  refine ⟨by decide, by decide, (hasleep (by decide)).1, ?_⟩
  exact (hbeside (by decide) (by decide) (by decide)).resolve_right (by rw [hmissed hone]; decide)

end Reception

end StreamMux
