import Mathlib.Data.List.Perm.Subperm
import StreamMux.Proofs.Waiting

/-! Wake-ups that are due. A signal is in good order if, while somebody waits, no state is there in which
every call is answered, and there is no more to take than calls were woken one by one that have not run
since. Each operation of a signal keeps this, whatever calls are cancelled, overtake each other or fall
asleep again, as long as the state behaves: a ring for one announces one thing more, a call that is given
something leaves one thing less, and a call that hesitates found nothing. One ring is kept while nobody
sleeps, and the next one is lost: this does no harm unless two calls at least stand between their look and
their sleep. -/

namespace StreamMux

namespace Signal

section Counting

variable {κ : Type} {s : Signal κ} {k : κ}

/-- How many calls were woken alone and have not run since. -/
def alone (s : Signal κ) : Nat := s.woken.countP fun w => w.2 = .one

/-- The calls that sleep, are about to, or are woken. -/
def callers (s : Signal κ) : List κ := s.asleep ++ s.wary ++ s.woken.map (·.1)

/-- Nobody sleeps or is about to. -/
def Idle (s : Signal κ) : Prop := s.asleep = [] ∧ s.wary = []

instance [DecidableEq κ] (s : Signal κ) : Decidable s.Idle := inferInstanceAs (Decidable (_ ∧ _))

/-- No call stands in two places. -/
def Apart (s : Signal κ) : Prop := s.callers.Nodup

/-- A ring for one is lost: nobody sleeps, another one is kept already, and there are calls for both. -/
def Deaf (s : Signal κ) : Prop := s.asleep = [] ∧ s.kept = true ∧ 2 ≤ s.wary.length

instance [DecidableEq κ] (s : Signal κ) : Decidable s.Deaf :=
  inferInstanceAs (Decidable (_ ∧ _ ∧ _))

theorem Apart.of_subperm {s' : Signal κ} (h : s.Apart) (hsub : List.Subperm s'.callers s.callers) : s'.Apart := by
  obtain ⟨xs, hperm, hxs⟩ := hsub
  exact hperm.nodup_iff.1 (h.sublist hxs)

theorem Apart.nodup_wary (h : s.Apart) : s.wary.Nodup :=
  (List.nodup_append.1 (List.nodup_append.1 h).1).2.1

theorem Apart.nodup_woken (h : s.Apart) : (s.woken.map (·.1)).Nodup := (List.nodup_append.1 h).2.1

/-- Who sleeps has found nothing and is not woken. -/
theorem Apart.not_mem_of_asleep (h : s.Apart) (hk : k ∈ s.asleep) : k ∉ s.wary ∧ ∀ w ∈ s.woken, w.1 ≠ k := by
  obtain ⟨hwaiting, -, hwoken⟩ := List.nodup_append.1 h
  refine ⟨fun hwary => (List.nodup_append.1 hwaiting).2.2 k hk k hwary rfl, fun w hw he => ?_⟩
  exact hwoken k (List.mem_append_left _ hk) w.1 (List.mem_map_of_mem hw) he.symm

theorem alone_of_woken_nil (h : s.woken = []) : s.alone = 0 := by
  simp [alone, h]

/-- A ring that somebody hears wakes one call more. -/
theorem alone_ringOne (h : s.asleep ≠ []) : s.ringOne.1.alone = s.alone + 1 := by
  unfold ringOne
  split
  · contradiction
  · simp [alone]

theorem wary_ringOne (s : Signal κ) : s.ringOne.1.wary = s.wary := by
  unfold ringOne
  split <;> rfl

theorem callers_ringOne (s : Signal κ) : List.Perm s.ringOne.1.callers s.callers := by
  unfold ringOne
  split
  · exact .refl _
  · rename_i k rest hasleep
    simp only [callers, hasleep, List.map_append, List.map_cons, List.map_nil, ← List.append_assoc]
    exact List.perm_append_comm

theorem callers_ringBoth (s : Signal κ) : List.Perm s.ringBoth.1.callers s.callers := by
  have hall : List.Perm s.ringAll.1.callers s.callers := by
    have hids : (s.asleep ++ s.wary).map ((·.1) ∘ (·, Ring.all)) = s.asleep ++ s.wary := List.map_id _
    simp only [callers, ringAll, List.map_append, List.map_map, List.nil_append] at hids ⊢
    rw [hids]
    exact List.perm_append_comm
  exact (callers_ringOne _).trans hall

theorem callers_sleep (s : Signal κ) (k : κ) : List.Perm (s.sleep k).callers (k :: s.callers) := by
  show List.Perm (((s.asleep ++ [k]) ++ s.wary) ++ s.woken.map (·.1)) _
  simp only [callers, List.append_assoc]
  exact List.perm_middle

theorem callers_hesitate (s : Signal κ) (k : κ) : List.Perm (s.hesitate k).callers (k :: s.callers) := by
  show List.Perm ((s.asleep ++ (s.wary ++ [k])) ++ s.woken.map (·.1)) _
  rw [← List.append_assoc, List.append_assoc _ [k]]
  exact List.perm_middle

variable [DecidableEq κ]

theorem callers_rise (s : Signal κ) (k : κ) : List.Sublist (s.rise k).callers s.callers :=
  ((List.Sublist.refl _).append List.filter_sublist).append (List.filter_sublist.map _)

theorem callers_leave (s : Signal κ) (k : κ) : List.Subperm (s.leave k).1.callers s.callers := by
  have hrest : List.Sublist (callers { s.rise k with asleep := s.asleep.filter (· ≠ k) }) s.callers :=
    (List.filter_sublist.append List.filter_sublist).append (List.filter_sublist.map _)
  unfold leave
  dsimp only
  split
  · exact (callers_ringOne _).subperm.trans hrest.subperm
  · exact hrest.subperm

/-- How a call that has found nothing settles: it uses up a ring that is kept, or sleeps. -/
inductive Settles (s : Signal κ) (k : κ) : Signal κ → Prop
  | done (settled : k ∉ s.wary) : Settles s k s
  | hears (wary : k ∈ s.wary) (kept : s.kept = true) : Settles s k
      { s with wary := s.wary.filter (· ≠ k), woken := s.woken ++ [(k, .one)], kept := false }
  | sleeps (wary : k ∈ s.wary) (silent : s.kept = false) : Settles s k
      { s with wary := s.wary.filter (· ≠ k), asleep := s.asleep ++ [k] }

theorem settles (s : Signal κ) (k : κ) : s.Settles k (s.settle k) := by
  unfold settle
  by_cases hk : k ∈ s.wary
  · rw [if_pos hk]
    by_cases hkept : s.kept = true
    · rw [if_pos hkept]
      exact .hears hk hkept
    · rw [if_neg hkept]
      exact .sleeps hk (by simpa using hkept)
  · rw [if_neg hk]
    exact .done hk

/-- A call that settles leaves those that have found nothing, and sleeps or is woken. -/
theorem callers_settle (h : s.Apart) (k : κ) : List.Perm (s.settle k).callers s.callers := by
  have hwaiting (hk : k ∈ s.wary) :
      List.Perm (s.asleep ++ k :: s.wary.filter (· ≠ k)) (s.asleep ++ s.wary) := by
    have hperm := List.perm_cons_erase hk
    rw [h.nodup_wary.erase_eq_filter] at hperm
    have hwary : List.Perm (k :: s.wary.filter (· ≠ k)) s.wary := by
      simpa [bne, beq_eq_decide] using hperm.symm
    exact hwary.append_left _
  have hsettles := settles s k
  generalize s.settle k = next at hsettles ⊢
  cases hsettles with
  | done => exact .refl _
  | hears wary =>
    refine List.Perm.trans ?_ ((hwaiting wary).append_right _)
    simp only [callers, List.map_append, List.map_cons, List.map_nil]
    rw [← List.append_assoc]
    exact (List.perm_append_singleton k _).trans (List.perm_middle.symm.append_right _)
  | sleeps wary =>
    refine List.Perm.trans ?_ ((hwaiting wary).append_right _)
    simp [callers]

theorem Apart.rise (h : s.Apart) (k : κ) : (s.rise k).Apart :=
  h.sublist (callers_rise s k)

theorem not_mem_callers_rise (hk : k ∉ s.asleep) : k ∉ (s.rise k).callers := by
  simp [callers, Signal.rise, hk]

theorem Apart.sleep (h : s.Apart) (hk : k ∉ s.asleep) : ((s.rise k).sleep k).Apart := by
  unfold Apart
  rw [(callers_sleep _ k).nodup_iff, List.nodup_cons]
  exact ⟨not_mem_callers_rise hk, h.rise k⟩

theorem Apart.hesitate (h : s.Apart) (hk : k ∉ s.asleep) : ((s.rise k).hesitate k).Apart := by
  unfold Apart
  rw [(callers_hesitate _ k).nodup_iff, List.nodup_cons]
  exact ⟨not_mem_callers_rise hk, h.rise k⟩

/-- A call that runs was woken once at most. -/
theorem alone_le_rise (h : s.Apart) (k : κ) : s.alone ≤ (s.rise k).alone + 1 := by
  have hkeys := h.nodup_woken
  unfold alone Signal.rise
  dsimp only
  generalize s.woken = woken at hkeys
  induction woken with
  | nil => simp
  | cons w woken ih =>
    rw [List.map_cons, List.nodup_cons] at hkeys
    obtain ⟨hnew, hkeys⟩ := hkeys
    by_cases hw : w.1 = k
    · have hothers : woken.filter (·.1 ≠ k) = woken := by
        rw [List.filter_eq_self]
        intro x hx
        have hne : x.1 ≠ k := fun he => hnew (List.mem_map.2 ⟨x, hx, he.trans hw.symm⟩)
        simpa using hne
      rw [List.filter_cons_of_neg (by simpa using hw), hothers, List.countP_cons]
      split <;> omega
    · have := ih hkeys
      rw [List.filter_cons_of_pos (by simpa using hw), List.countP_cons, List.countP_cons]
      omega

/-- A call that was not woken alone leaves all that were. -/
theorem alone_rise (hk : (k, Ring.one) ∉ s.woken) : (s.rise k).alone = s.alone := by
  unfold alone Signal.rise
  rw [List.countP_filter]
  apply List.countP_congr
  intro w hw
  have hne (hone : w.2 = Ring.one) : w.1 ≠ k := by
    rintro rfl
    have he : w = (w.1, Ring.one) := Prod.ext rfl hone
    exact hk (he ▸ hw)
  constructor
  · intro h
    exact (Bool.and_eq_true_iff.1 h).1
  · intro h
    simpa using ⟨of_decide_eq_true h, hne (of_decide_eq_true h)⟩

theorem length_wary_rise (s : Signal κ) (k : κ) : (s.rise k).wary.length ≤ s.wary.length :=
  List.length_filter_le _ _

theorem wary_rise_subset (s : Signal κ) (k : κ) : (s.rise k).wary ⊆ s.wary := List.filter_sublist.subset

theorem wary_leave_subset (s : Signal κ) (k : κ) : (s.leave k).1.wary ⊆ s.wary := by
  unfold leave
  dsimp only
  split
  · rw [wary_ringOne]
    exact wary_rise_subset s k
  · exact wary_rise_subset s k

theorem wary_settle_subset (s : Signal κ) (k : κ) : (s.settle k).wary ⊆ s.wary := by
  have hsettles := settles s k
  generalize s.settle k = next at hsettles ⊢
  cases hsettles with
  | done => exact List.Subset.refl _
  | hears | sleeps => exact List.filter_sublist.subset

theorem wary_ne_nil_of_rise (h : (s.rise k).wary ≠ []) : s.wary ≠ [] := by
  intro hnil
  exact h (by simp [Signal.rise, hnil])

end Counting

/-- If a run of a call wakes nobody and leaves it woken no more, nobody is woken once all who were have run, in
whatever order. -/
theorem woken_of_all_run {κ σ ι : Type} (signal : σ → Signal κ) (caller : ι → κ) {run : σ → ι → σ}
    {sound : σ → Prop} (hrun : ∀ s i, sound s → sound (run s i) ∧
      ∀ w ∈ (signal (run s i)).woken, w ∈ (signal s).woken ∧ w.1 ≠ caller i)
    {s : σ} (hs : sound s) {order : List ι} (hall : ∀ w ∈ (signal s).woken, w.1 ∈ order.map caller) :
    (signal (order.foldl run s)).woken = [] := by
  induction order generalizing s with
  | nil =>
    apply List.eq_nil_of_subset_nil
    intro w hw
    exact absurd (hall w hw) (by simp)
  | cons i order ih =>
    obtain ⟨hsound, hwoken⟩ := hrun s i hs
    refine ih hsound ?_
    intro w hw
    obtain ⟨hw, hne⟩ := hwoken w hw
    exact (List.mem_cons.1 (hall w hw)).resolve_left hne

/-! ### Counting along a run -/

section Tally

variable {σ ι : Type} {step : σ → ι → σ}

/-- How often an act has counted, if `n` had before, since `idle` held last. -/
def tally (step : σ → ι → σ) (idle : σ → Prop) (counts : σ → ι → Prop) [DecidablePred idle]
    [∀ s, DecidablePred (counts s)] (n : Nat) (s : σ) : List ι → Nat
  | [] => n
  | a :: acts =>
    tally step idle counts (if idle (step s a) then 0 else if counts s a then n + 1 else n) (step s a) acts

variable {idle : σ → Prop} {counts : σ → ι → Prop} [DecidablePred idle] [∀ s, DecidablePred (counts s)]

/-- What each act keeps with the count of it, every run keeps with the count of the run. -/
theorem tally_keeps {P : Nat → σ → Prop}
    (hcount : ∀ {n m s a}, P n s → n ≤ m → (counts s a → n < m) → P m (step s a))
    (hidle : ∀ {n s}, P n s → idle s → P 0 s) {n : Nat} {s : σ} (h : P n s) (acts : List ι) :
    P (tally step idle counts n s acts) (acts.foldl step s) := by
  induction acts generalizing n s with
  | nil => exact h
  | cons a acts ih =>
    refine ih ?_
    have hstep : P (if counts s a then n + 1 else n) (step s a) := by
      refine hcount h (by split <;> omega) fun hcounts => ?_
      rw [if_pos hcounts]
      exact Nat.lt_succ_self n
    by_cases hnobody : idle (step s a)
    · rw [if_pos hnobody]
      exact hidle hstep hnobody
    · rw [if_neg hnobody]
      exact hstep

/-- Nothing is counted in a run of which no act counts, but for those that leave nobody. -/
theorem tally_eq_zero {s : σ} {acts : List ι}
    (hacts : ∀ before a, before ++ [a] <+: acts →
      ¬ idle ((before ++ [a]).foldl step s) → ¬ counts (before.foldl step s) a) :
    tally step idle counts 0 s acts = 0 := by
  induction acts generalizing s with
  | nil => rfl
  | cons a acts ih =>
    have hstep : (if idle (step s a) then 0 else if counts s a then 0 + 1 else 0) = 0 := by
      split
      · rfl
      · rename_i hsomebody
        exact if_neg (hacts [] a (by simp) hsomebody)
    show tally step idle counts _ (step s a) acts = 0
    rw [hstep]
    exact ih fun before b hbefore => hacts (a :: before) b (List.cons_prefix_cons.2 ⟨rfl, hbefore⟩)

/-- Acts of two kinds count as many times as those of each kind do. -/
theorem tally_or {counts' : σ → ι → Prop} [∀ s, DecidablePred (counts' s)]
    (hapart : ∀ s a, counts s a → ¬ counts' s a) (n n' : Nat) {s : σ} {acts : List ι} :
    tally step idle (fun s a => counts s a ∨ counts' s a) (n + n') s acts =
      tally step idle counts n s acts + tally step idle counts' n' s acts := by
  induction acts generalizing n n' s with
  | nil => rfl
  | cons a acts ih =>
    simp only [tally, ← ih]
    congr 1
    by_cases hnobody : idle (step s a)
    · simp only [if_pos hnobody]
    · by_cases hfirst : counts s a
      · simp only [if_neg hnobody, if_pos hfirst, if_pos (Or.inl hfirst), if_neg (hapart s a hfirst)]
        omega
      · simp only [if_neg hnobody, hfirst, false_or, if_false]
        split <;> omega

end Tally

/-! ### Due wake-ups -/

/-- `ripe` tells that every call is answered now, `due` how much there is to take. If two calls are about to
sleep, a ring that is kept may stand for one thing more. -/
structure Attended {κ : Type} (ripe : Prop) (due : Nat) (s : Signal κ) : Prop where
  apart : s.Apart
  unripe : s.asleep ≠ [] ∨ s.wary ≠ [] → ¬ ripe
  due_le : s.asleep ≠ [] ∨ s.wary ≠ [] ∧ s.kept = false → due ≤ s.alone
  due_le_succ : 2 ≤ s.wary.length → due ≤ s.alone + 1

namespace Attended

variable {κ : Type} {s : Signal κ} {k : κ} {ripe ripe' : Prop} {due due' : Nat}

/-- Nothing is due while nobody waits. -/
theorem of_idle (h : s.Apart) (hidle : s.Idle) (ripe : Prop) (due : Nat) : Attended ripe due s := by
  obtain ⟨hasleep, hwary⟩ := hidle
  refine ⟨h, ?_, ?_, ?_⟩ <;> simp [hasleep, hwary]

theorem empty (ripe : Prop) (due : Nat) : Attended ripe due ({} : Signal κ) := by
  have hnobody : ({} : Signal κ).Apart := List.nodup_nil
  exact of_idle hnobody ⟨rfl, rfl⟩ ripe due

theorem wary_ne_nil (hlength : 2 ≤ s.wary.length) : s.wary ≠ [] := by
  rintro hnil
  simp [hnil] at hlength

/-- The state changes and nobody is told. -/
theorem quiet (h : Attended ripe due s) (hripe : ripe' → ripe) (hdue : ¬ ripe → due' ≤ due) :
    Attended ripe' due' s where
  apart := h.apart
  unripe hne hr := h.unripe hne (hripe hr)
  due_le hne := Nat.le_trans (hdue (h.unripe (hne.imp_right And.left))) (h.due_le hne)
  due_le_succ hlength :=
    Nat.le_trans (hdue (h.unripe (.inr (wary_ne_nil hlength)))) (h.due_le_succ hlength)

/-- One thing more is there, and one call is woken, unless nobody hears the ring. -/
theorem ringOne (h : Attended ripe due s) (hripe : ripe' → ripe) (hdue : due' ≤ due + 1)
    (hdeaf : s.Deaf → due' ≤ due) : Attended ripe' due' s.ringOne.1 := by
  have hapart := h.apart.of_subperm (callers_ringOne s).subperm
  by_cases hasleep : s.asleep = []
  · have hring : s.ringOne.1 = { s with kept := true } := by simp [Signal.ringOne, hasleep]
    rw [hring] at hapart ⊢
    refine ⟨hapart, fun hne hr => h.unripe hne (hripe hr), fun hne => ?_, fun hlength => ?_⟩
    · simp [hasleep] at hne
    · cases hkept : s.kept with
      | false =>
        have := h.due_le (.inr ⟨wary_ne_nil hlength, hkept⟩)
        exact Nat.le_trans hdue (Nat.succ_le_succ this)
      | true => exact Nat.le_trans (hdeaf ⟨hasleep, hkept, hlength⟩) (h.due_le_succ hlength)
  · have hdue' : due' ≤ s.ringOne.1.alone := by
      rw [alone_ringOne hasleep]
      exact Nat.le_trans hdue (Nat.succ_le_succ (h.due_le (.inl hasleep)))
    exact ⟨hapart, fun _ hr => h.unripe (.inl hasleep) (hripe hr), fun _ => hdue',
      fun _ => Nat.le_succ_of_le hdue'⟩

/-- Nobody waits after a ring for all. -/
theorem ringBoth (h : Attended ripe due s) (ripe' : Prop) (due' : Nat) :
    Attended ripe' due' s.ringBoth.1 :=
  of_idle (h.apart.of_subperm (callers_ringBoth s).subperm) ⟨asleep_ringBoth s, wary_ringBoth s⟩ ripe' due'

variable [DecidableEq κ]

/-- A call runs and is given something. -/
theorem rise (h : Attended ripe due s) (k : κ) (hripe : ripe' → ripe) (hdue : ¬ ripe → due' ≤ due - 1) :
    Attended ripe' due' (s.rise k) := by
  have halone := alone_le_rise h.apart k
  have hlength := length_wary_rise s k
  refine ⟨h.apart.rise k, fun hne hr => ?_, fun hne => ?_, fun htwo => ?_⟩
  · exact h.unripe (hne.imp_right wary_ne_nil_of_rise) (hripe hr)
  · have hne : s.asleep ≠ [] ∨ s.wary ≠ [] ∧ s.kept = false :=
      hne.imp_right (And.imp_left wary_ne_nil_of_rise)
    have := h.due_le hne
    have := hdue (h.unripe (hne.imp_right And.left))
    omega
  · have htwo : 2 ≤ s.wary.length := Nat.le_trans htwo hlength
    have := h.due_le_succ htwo
    have := hdue (h.unripe (.inr (wary_ne_nil htwo)))
    omega

/-- A call that was not woken alone runs, and leaves what was due to others. -/
theorem rise_unwoken (h : Attended ripe due s) (hk : (k, Ring.one) ∉ s.woken) (hripe : ripe' → ripe)
    (hdue : due' ≤ due) : Attended ripe' due' (s.rise k) := by
  have halone := alone_rise hk
  refine ⟨h.apart.rise k, fun hne hr => ?_, fun hne => ?_, fun htwo => ?_⟩
  · exact h.unripe (hne.imp_right wary_ne_nil_of_rise) (hripe hr)
  · rw [halone]
    exact Nat.le_trans hdue (h.due_le (hne.imp_right (And.imp_left wary_ne_nil_of_rise)))
  · rw [halone]
    exact Nat.le_trans hdue (h.due_le_succ (Nat.le_trans htwo (length_wary_rise s k)))

/-- A call goes away. If it was woken alone it hands the ring on, unless nobody hears that. -/
theorem leave (h : Attended ripe due s) (k : κ) (hdue : due' ≤ due)
    (hdeaf : s.Deaf → (k, Ring.one) ∈ s.woken → due' ≤ due - 1) : Attended ripe due' (s.leave k).1 := by
  have hapart := h.apart.of_subperm (callers_leave s k)
  have hslept (hne : s.asleep.filter (· ≠ k) ≠ []) : s.asleep ≠ [] := by
    rintro hnil
    exact hne (by rw [hnil]; rfl)
  have hlength := length_wary_rise s k
  unfold Signal.leave at hapart ⊢
  dsimp only at hapart ⊢
  by_cases hone : (k, Ring.one) ∈ s.woken
  · rw [if_pos hone] at hapart ⊢
    have halone := alone_le_rise h.apart k
    by_cases hasleep : s.asleep.filter (· ≠ k) = []
    · have hring : (Signal.ringOne { s.rise k with asleep := s.asleep.filter (· ≠ k) }).1 =
          { s.rise k with asleep := [], kept := true } := by
        simp only [Signal.ringOne, hasleep]
      rw [hring] at hapart ⊢
      refine ⟨hapart, fun hne => ?_, fun hne => ?_, fun htwo => ?_⟩
      · exact h.unripe (.inr (wary_ne_nil_of_rise (hne.resolve_left (by simp))))
      · simp at hne
      · have htwo : 2 ≤ s.wary.length := Nat.le_trans htwo hlength
        show due' ≤ (s.rise k).alone + 1
        by_cases hheard : s.asleep ≠ [] ∨ s.wary ≠ [] ∧ s.kept = false
        · have := h.due_le hheard
          omega
        · have hsilent : s.asleep = [] ∧ s.kept = true := by
            simpa [wary_ne_nil htwo] using hheard
          have := h.due_le_succ htwo
          have := hdeaf ⟨hsilent.1, hsilent.2, htwo⟩ hone
          omega
    · have hdue' : due' ≤
          (Signal.ringOne { s.rise k with asleep := s.asleep.filter (· ≠ k) }).1.alone := by
        rw [alone_ringOne hasleep]
        show due' ≤ (s.rise k).alone + 1
        have := h.due_le (.inl (hslept hasleep))
        omega
      exact ⟨hapart, fun _ => h.unripe (.inl (hslept hasleep)), fun _ => hdue',
        fun _ => Nat.le_succ_of_le hdue'⟩
  · rw [if_neg hone] at hapart ⊢
    obtain ⟨-, hunripe, hdue_le, hdue_le_succ⟩ := h.rise_unwoken hone id hdue
    refine ⟨hapart, fun hne => ?_, fun hne => ?_, hdue_le_succ⟩
    · exact hunripe (hne.imp_left hslept)
    · exact hdue_le (hne.imp_left hslept)

/-- A call runs, is given nothing, and sleeps. -/
theorem sleep (h : Attended ripe due s) (hk : k ∉ s.asleep) (hripe : ¬ ripe') (hdue : due' = 0) :
    Attended ripe' due' ((s.rise k).sleep k) where
  apart := h.apart.sleep hk
  unripe _ := hripe
  due_le _ := hdue ▸ Nat.zero_le _
  due_le_succ _ := hdue ▸ Nat.zero_le _

/-- A call runs, is given nothing, and does not sleep yet. -/
theorem hesitate (h : Attended ripe due s) (hk : k ∉ s.asleep) (hripe : ¬ ripe') (hdue : due' = 0) :
    Attended ripe' due' ((s.rise k).hesitate k) where
  apart := h.apart.hesitate hk
  unripe _ := hripe
  due_le _ := hdue ▸ Nat.zero_le _
  due_le_succ _ := hdue ▸ Nat.zero_le _

/-- A call that was given nothing sleeps, unless there was a ring since. -/
theorem settle (h : Attended ripe due s) (k : κ) : Attended ripe due (s.settle k) := by
  have hapart := h.apart.of_subperm (callers_settle h.apart k).subperm
  have hsettles := settles s k
  generalize s.settle k = next at hapart hsettles ⊢
  cases hsettles with
  | done => exact h
  | hears wary kept =>
    have hne : s.wary ≠ [] := List.ne_nil_of_mem wary
    have hrest : (s.wary.filter (· ≠ k)).length < s.wary.length :=
      List.length_filter_lt_length_iff_exists.2 ⟨k, wary, by simp⟩
    have halone : alone { s with
        wary := s.wary.filter (· ≠ k), woken := s.woken ++ [(k, .one)], kept := false } = s.alone + 1 := by
      simp [alone]
    refine ⟨hapart, fun _ => h.unripe (.inr hne), fun hwaits => ?_, fun htwo => ?_⟩ <;> rw [halone]
    · rcases hwaits with hasleep | ⟨hothers, -⟩
      · exact Nat.le_succ_of_le (h.due_le (.inl hasleep))
      · have hothers : 0 < (s.wary.filter (· ≠ k)).length := List.length_pos_iff.2 hothers
        exact h.due_le_succ (by omega)
    · exact Nat.le_succ_of_le (h.due_le_succ (Nat.le_trans htwo (Nat.le_of_lt hrest)))
  | sleeps wary silent =>
    have hne : s.wary ≠ [] := List.ne_nil_of_mem wary
    have hdue := h.due_le (.inr ⟨hne, silent⟩)
    exact ⟨hapart, fun _ => h.unripe (.inr hne), fun _ => hdue, fun _ => Nat.le_succ_of_le hdue⟩

end Attended

end Signal

namespace Monitor

variable {κ σ β : Type} [DecidableEq κ] {m m' : Monitor κ σ} {k : κ} {look : σ → σ × Option β}
  {answer : Option β}

/-- A call that sleeps goes on sleeping; any other looks, and pauses if it is given nothing. -/
def Served (m : Monitor κ σ) (k : κ) (look : σ → σ × Option β) (pause : Signal κ → Signal κ)
    (m' : Monitor κ σ) (answer : Option β) : Prop :=
  (k ∈ m.signal.asleep ∧ m' = m ∧ answer = none) ∨
  (k ∉ m.signal.asleep ∧ look m.state = (m'.state, answer) ∧
    m'.signal = if answer.isSome then m.signal.rise k else pause (m.signal.rise k))

theorem served_poll (hp : m.poll k look = (m', answer)) : m.Served k look (·.sleep k) m' answer := by
  unfold poll at hp
  by_cases hk : k ∈ m.signal.asleep
  · rw [if_pos hk] at hp
    cases hp
    exact .inl ⟨hk, rfl, rfl⟩
  · rw [if_neg hk] at hp
    rcases hl : look m.state with ⟨state, _ | given⟩ <;> rw [hl] at hp <;> cases hp <;>
      exact .inr ⟨hk, hl, rfl⟩

theorem served_glance (hg : m.glance k look = (m', answer)) :
    m.Served k look (·.hesitate k) m' answer := by
  unfold glance at hg
  by_cases hk : k ∈ m.signal.asleep
  · rw [if_pos hk] at hg
    cases hg
    exact .inl ⟨hk, rfl, rfl⟩
  · rw [if_neg hk] at hg
    rcases hl : look m.state with ⟨state, _ | given⟩ <;> rw [hl] at hg <;> cases hg <;>
      exact .inr ⟨hk, hl, rfl⟩

/-- Nobody is woken by a call that runs, and the call itself is not woken any more. -/
theorem woken_poll (hp : m.poll k look = (m', answer)) (h : m.signal.Apart) :
    ∀ w ∈ m'.signal.woken, w ∈ m.signal.woken ∧ w.1 ≠ k := by
  intro w hw
  rcases served_poll hp with ⟨hk, rfl, -⟩ | ⟨-, -, hsignal⟩
  · exact ⟨hw, (h.not_mem_of_asleep hk).2 w hw⟩
  · have hrise : w ∈ (m.signal.rise k).woken := by
      rw [hsignal] at hw
      split at hw <;> exact hw
    simpa [Signal.rise] using hrise

end Monitor

end StreamMux
