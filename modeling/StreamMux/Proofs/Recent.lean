import StreamMux.Estimate.Latency
import StreamMux.Proofs.Magnitude

/-! The ring of latency samples as a window of the last ones. Read from the head on, the ring holds its
samples from the oldest to the newest; its least slot holds a least one of them, although it is searched for
only when it is overwritten. Neither depends on more than the order of the samples. -/

namespace StreamMux

namespace Latency

variable {l : Latency} {sample : Float}

/-! ### What a sample changes -/

@[simp] theorem slots_renew (l : Latency) : l.renew.slots = l.slots := by
  unfold renew
  split <;> rfl

@[simp] theorem head_renew (l : Latency) : l.renew.head = l.head := by
  unfold renew
  split <;> rfl

@[simp] theorem slots_prefer (sample : Float) (l : Latency) : (l.prefer sample).slots = l.slots := by
  unfold prefer
  split
  · split <;> rfl
  · rfl

@[simp] theorem head_prefer (sample : Float) (l : Latency) : (l.prefer sample).head = l.head := by
  unfold prefer
  split
  · split <;> rfl
  · rfl

@[simp] theorem slots_add (sample : Float) (l : Latency) :
    (l.add sample).slots = l.slots.set l.head (some sample) l.head.isLt := by
  simp [add, store]

theorem slot_store_head (sample : Float) (l : Latency) : (l.store sample).slot l.head = some sample := by
  simp [slot, store]

theorem slot_store_of_ne {i : Fin latencySlots} (h : i ≠ l.head) : (l.store sample).slot i = l.slot i :=
  Vector.getElem_set_ne l.head.isLt i.isLt fun he => h (Fin.ext he.symm)

@[simp] theorem head_add (sample : Float) (l : Latency) : (l.add sample).head = l.head + 1 := by
  simp [add, store]

/-! ### The ring -/

/-- The ring from its oldest slot to its newest. -/
def ring (l : Latency) : List (Option Float) := l.slots.toList.rotate l.head

/-- The last samples, as many as there are slots. -/
def recent (taken : List Float) : List Float := taken.drop (taken.length - latencySlots)

theorem length_recent (taken : List Float) : (recent taken).length = min taken.length latencySlots := by
  rw [recent, List.length_drop]
  omega

theorem mem_ring {o : Option Float} : o ∈ l.ring ↔ ∃ i, l.slot i = o := by
  rw [ring, List.mem_rotate, Vector.mem_toList_iff, Vector.mem_iff_getElem]
  constructor
  · rintro ⟨i, hi, h⟩
    exact ⟨⟨i, hi⟩, h⟩
  · rintro ⟨i, h⟩
    exact ⟨i, i.isLt, h⟩

theorem rotate_set {α : Type} {L : List α} {h : Nat} (hlt : h < L.length) (x : α) :
    (L.set h x).rotate (h + 1) = (L.rotate h).tail ++ [x] := by
  obtain ⟨before, y, after, rfl, rfl⟩ : ∃ before y after, L = before ++ y :: after ∧ before.length = h :=
    ⟨L.take h, L[h], L.drop (h + 1), by simp, by simp; omega⟩
  have hset : (before ++ y :: after).set before.length x = (before ++ [x]) ++ after := by simp
  have hone : (before ++ [x]).length = before.length + 1 := by simp
  rw [hset, ← hone, List.rotate_append_length_eq, List.rotate_append_length_eq]
  simp

/-- A sample takes the place of the oldest slot, and is the newest then. -/
theorem ring_add (sample : Float) (l : Latency) : (l.add sample).ring = l.ring.tail ++ [some sample] := by
  have hlength : l.slots.toList.length = latencySlots := Vector.length_toList
  have hhead : (l.head + 1).val = (l.head.val + 1) % latencySlots := Fin.val_add l.head 1
  have hround := List.rotate_mod (l.slots.toList.set l.head (some sample)) (l.head + 1)
  rw [List.length_set, hlength] at hround
  rw [ring, slots_add, head_add, hhead, Vector.toList_set, hround]
  exact rotate_set (by rw [hlength]; exact l.head.isLt) _

/-- A ring that has taken these samples, from its oldest slot to its newest. -/
def window (taken : List Float) : List (Option Float) :=
  List.replicate (latencySlots - taken.length) none ++ (recent taken).map some

theorem window_append (taken : List Float) (sample : Float) :
    window (taken ++ [sample]) = (window taken).tail ++ [some sample] := by
  have hlength : (taken ++ [sample]).length = taken.length + 1 := List.length_append
  have hslots := latencySlots_pos
  unfold window recent
  rw [hlength]
  rcases Nat.lt_or_ge taken.length latencySlots with hlt | hge
  · obtain ⟨n, hn⟩ : ∃ n, latencySlots - taken.length = n + 1 := ⟨latencySlots - taken.length - 1, by omega⟩
    rw [hn, show latencySlots - (taken.length + 1) = n by omega, Nat.sub_eq_zero_of_le (Nat.le_of_lt hlt),
      Nat.sub_eq_zero_of_le (Nat.succ_le_of_lt hlt), List.replicate_succ]
    simp
  · rw [Nat.sub_eq_zero_of_le hge, Nat.sub_eq_zero_of_le (Nat.le_succ_of_le hge), Nat.succ_sub hge,
      List.drop_append_of_le_length (by omega), ← List.tail_drop]
    simp

theorem mem_window {taken : List Float} : some sample ∈ window taken ↔ sample ∈ recent taken := by
  simp [window]

/-! ### The least slot -/

/-- All samples in the ring are positive. -/
def AllPositive (l : Latency) : Prop := ∀ i s, l.slot i = some s → 0.0 < s

/-- The slot holds a sample, and none in the ring is less. -/
def Leads (l : Latency) (i : Fin latencySlots) : Prop :=
  ∃ m, l.slot i = some m ∧ ∀ j s, l.slot j = some s → m ≤ s

/-- A best slot of those that have been seen. -/
inductive Best (l : Latency) (seen : List (Fin latencySlots)) : Option (Fin latencySlots × Float) → Prop
  | nothing (empty : ∀ i ∈ seen, l.slot i = none) : Best l seen none
  | found {i : Fin latencySlots} {m : Float} (held : l.slot i = some m)
      (least : ∀ j ∈ seen, ∀ s, l.slot j = some s → m ≤ s) : Best l seen (some (i, m))

theorem Best.better (h : l.AllPositive) {seen : List (Fin latencySlots)}
    {best : Option (Fin latencySlots × Float)} (hbest : Best l seen best) (i : Fin latencySlots) :
    Best l (i :: seen) (l.better best i) := by
  unfold Latency.better
  cases hi : l.slot i with
  | none =>
    cases hbest with
    | nothing empty => exact .nothing (List.forall_mem_cons.2 ⟨hi, empty⟩)
    | found held least =>
      exact .found held (List.forall_mem_cons.2 ⟨fun s hs => by simp [hi] at hs, least⟩)
  | some s =>
    have hself (t : Float) (ht : l.slot i = some t) : s = t := Option.some.inj (hi.symm.trans ht)
    cases hbest with
    | nothing empty =>
      refine .found hi (List.forall_mem_cons.2 ⟨fun t ht => ?_, fun j hj t ht => ?_⟩)
      · exact hself t ht ▸ Magnitude.le_self (h i s hi)
      · simp [empty j hj] at ht
    | found held least =>
      dsimp only
      split
      · rename_i hless
        refine .found hi (List.forall_mem_cons.2 ⟨fun t ht => ?_, fun j hj t ht => ?_⟩)
        · exact hself t ht ▸ Magnitude.le_self (h i s hi)
        · exact Magnitude.le_trans (h i s hi) (h _ _ held) (h j t ht)
            (Magnitude.le_of_lt (h i s hi) (h _ _ held) hless) (least j hj t ht)
      · rename_i hless
        refine .found held (List.forall_mem_cons.2 ⟨fun t ht => ?_, least⟩)
        exact hself t ht ▸ (Magnitude.not_lt_iff_le (h i s hi) (h _ _ held)).1 hless

theorem Best.foldl (h : l.AllPositive) {seen : List (Fin latencySlots)}
    {best : Option (Fin latencySlots × Float)} (hbest : Best l seen best) (more : List (Fin latencySlots)) :
    Best l (more.reverse ++ seen) (more.foldl l.better best) := by
  induction more generalizing seen best with
  | nil => exact hbest
  | cons i more ih => simpa using ih (hbest.better h i)

/-- A search of a ring that holds samples gives a least slot. -/
theorem leads_scan (h : l.AllPositive) {i : Fin latencySlots} (hi : l.slot i ≠ none) : l.Leads l.scan := by
  have hempty : Best l [] none := .nothing fun j hj => by cases hj
  have hbest := hempty.foldl h (List.finRange latencySlots)
  unfold scan
  generalize hscan : (List.finRange latencySlots).foldl l.better none = best at hbest ⊢
  cases hbest with
  | nothing empty => exact absurd (empty i (by simp)) hi
  | found held least => exact ⟨_, held, fun j s hs => least j (by simp) s hs⟩

/-- A new sample is compared with the least of the others. -/
theorem leads_prefer (h : l.AllPositive) (hhead : l.slot l.head = some sample) {m : Float}
    (hm : l.slot l.least = some m)
    (hleast : ∀ j s, j ≠ l.head → l.slot j = some s → m ≤ s) :
    (l.prefer sample).Leads (l.prefer sample).least := by
  unfold prefer
  rw [hm]
  dsimp only
  split
  · rename_i hless
    refine ⟨sample, hhead, fun j s hs => ?_⟩
    by_cases hj : j = l.head
    · obtain rfl : sample = s := Option.some.inj (hhead.symm.trans (hj ▸ hs))
      exact Magnitude.le_self (h _ _ hhead)
    · exact Magnitude.le_trans (h _ _ hhead) (h _ _ hm) (h j s hs)
        (Magnitude.le_of_lt (h _ _ hhead) (h _ _ hm) hless) (hleast j s hj hs)
  · rename_i hless
    refine ⟨m, hm, fun j s hs => ?_⟩
    by_cases hj : j = l.head
    · obtain rfl : sample = s := Option.some.inj (hhead.symm.trans (hj ▸ hs))
      exact (Magnitude.not_lt_iff_le (h _ _ hhead) (h _ _ hm)).1 hless
    · exact hleast j s hj hs

/-- The least slot leads once a sample has been put in, if it led before or is overwritten. -/
theorem leads_add (hpositive : (l.add sample).AllPositive) (hleast : l.head = l.least ∨ l.Leads l.least) :
    (l.add sample).Leads (l.add sample).least := by
  have hslot (i : Fin latencySlots) : (l.add sample).slot i = (l.store sample).slot i := by
    rw [slot, slot, slots_add]
    rfl
  have hpositive : (l.store sample).AllPositive := fun i s hs => hpositive i s ((hslot i).trans hs)
  have hrenewed (i : Fin latencySlots) : (l.store sample).renew.slot i = (l.store sample).slot i := by
    rw [slot, slot, slots_renew]
  have hhead := slot_store_head sample l
  -- the slots but the head are as they were, so a slot that led still leads the others
  have hready : ∃ m, (l.store sample).slot (l.store sample).renew.least = some m ∧
      ∀ j s, j ≠ l.head → (l.store sample).slot j = some s → m ≤ s := by
    by_cases hsame : l.head = l.least
    · have hrenew : (l.store sample).renew.least = (l.store sample).scan := by simp [renew, store, hsame]
      obtain ⟨m, hm, hleads⟩ := leads_scan hpositive (by rw [hhead]; simp)
      exact ⟨m, by rw [hrenew, hm], fun j s _ hs => hleads j s hs⟩
    · have hrenew : (l.store sample).renew.least = l.least := by simp [renew, store, hsame]
      obtain ⟨m, hm, hleads⟩ := hleast.resolve_left hsame
      refine ⟨m, ?_, fun j s hj hs => hleads j s (slot_store_of_ne hj ▸ hs)⟩
      rw [hrenew, slot_store_of_ne fun he => hsame he.symm, hm]
  obtain ⟨m, hm, hrest⟩ := hready
  exact leads_prefer (fun i s hs => hpositive i s (hrenewed i ▸ hs))
    (by rw [hrenewed, head_renew]; exact hhead) (by rw [hrenewed, hm])
    fun j s hj hs => hrest j s (by rw [head_renew] at hj; exact hj) (hrenewed j ▸ hs)

/-! ### Runs -/

/-- The estimator after it has been given these samples. -/
def after (samples : List Float) : Latency := samples.foldl (fun l s => l.report s) {}

/-- The samples that are taken. -/
def positives (samples : List Float) : List Float := samples.filter (0.0 < ·)

/-- The ring holds the last of the samples that were taken, and the least slot leads once there is one. -/
structure Tracks (taken : List Float) (l : Latency) : Prop where
  positive : ∀ s ∈ taken, 0.0 < s
  ring : l.ring = window taken
  head : l.head.val = taken.length % latencySlots
  least : taken = [] ∧ l.head = l.least ∨ l.Leads l.least

theorem tracks_new : Tracks [] {} where
  positive _ hs := by cases hs
  ring := by rfl
  head := rfl
  least := .inl ⟨rfl, rfl⟩

variable {taken : List Float}

theorem Tracks.held (h : Tracks taken l) {i : Fin latencySlots} {s : Float} (hs : l.slot i = some s) :
    s ∈ recent taken := by
  have hmem : some s ∈ l.ring := mem_ring.2 ⟨i, hs⟩
  rw [h.ring] at hmem
  exact mem_window.1 hmem

theorem Tracks.add (h : Tracks taken l) (hpos : 0.0 < sample) : Tracks (taken ++ [sample]) (l.add sample) := by
  have hring : (l.add sample).ring = window (taken ++ [sample]) := by rw [ring_add, h.ring, window_append]
  have hpositive (s : Float) (hs : s ∈ taken ++ [sample]) : 0.0 < s := by
    rcases List.mem_append.1 hs with hs | hs
    · exact h.positive s hs
    · exact List.mem_singleton.1 hs ▸ hpos
  refine ⟨hpositive, hring, ?_, .inr (leads_add (fun i s hs => ?_) (h.least.imp_left And.right))⟩
  · rw [head_add, Fin.val_add, h.head, List.length_append, Nat.add_mod]
    simp
  · have hmem : some s ∈ (l.add sample).ring := mem_ring.2 ⟨i, hs⟩
    rw [hring] at hmem
    exact hpositive s (List.mem_of_mem_drop (mem_window.1 hmem))

theorem report_of_not_pos (hpos : ¬ 0.0 < sample) (l : Latency) :
    l.report sample = { l with published := l.minimum * l.successRate } := by
  have hpos : ¬ sample > 0.0 := hpos
  simp [report, measure, hpos]

theorem report_of_pos (hpos : 0.0 < sample) (l : Latency) : l.report sample =
    { l.add sample with published := (l.add sample).minimum * (l.add sample).successRate } := by
  have hpos : sample > 0.0 := hpos
  simp [report, measure, hpos]

theorem Tracks.report (h : Tracks taken l) (sample : Float) :
    Tracks (taken ++ positives [sample]) (l.report sample) := by
  by_cases hpos : 0.0 < sample
  · have hadd := h.add hpos
    rw [report_of_pos hpos, show positives [sample] = [sample] by simp [positives, hpos]]
    exact ⟨hadd.positive, hadd.ring, hadd.head, hadd.least⟩
  · rw [report_of_not_pos hpos, show positives [sample] = [] by simp [positives, hpos], List.append_nil]
    exact ⟨h.positive, h.ring, h.head, h.least⟩

theorem after_append (samples more : List Float) :
    after (samples ++ more) = more.foldl (fun l s => l.report s) (after samples) := List.foldl_append

theorem tracks_after (samples : List Float) : Tracks (positives samples) (after samples) := by
  induction samples using List.reverseRecOn with
  | nil => exact tracks_new
  | append_singleton samples s ih =>
    have hsplit : positives (samples ++ [s]) = positives samples ++ positives [s] := List.filter_append ..
    rw [after_append, hsplit]
    exact ih.report s

/-! ### What is lost -/

theorem Tracks.perm_samples (h : Tracks taken l) : l.samples.Perm (recent taken) := by
  have hperm : l.samples.Perm (l.ring.filterMap id) := (List.rotate_perm _ _).symm.filterMap id
  rwa [h.ring, show (window taken).filterMap id = recent taken by simp [window]] at hperm

/-- The rate counts the samples of the window, the lost ones and the rest. -/
theorem Tracks.successRate (h : Tracks taken l) :
    (recent taken).countP (!l.isLost ·) + (recent taken).countP l.isLost = min taken.length latencySlots ∧
    l.successRate = if taken = [] then 1.0 else
      Float.ofNat ((recent taken).countP (!l.isLost ·)) /
        Float.ofNat ((recent taken).countP (!l.isLost ·) + (recent taken).countP l.isLost) := by
  have hlength := length_recent taken
  have hsplit : (recent taken).length = (recent taken).countP l.isLost + (recent taken).countP (!l.isLost ·) :=
    (List.length_eq_countP_add_countP l.isLost).trans (by simp)
  have hkept : (recent taken).length - (recent taken).countP l.isLost = (recent taken).countP (!l.isLost ·) := by
    omega
  refine ⟨by omega, ?_⟩
  unfold Latency.successRate
  dsimp only
  rw [h.perm_samples.countP_eq, h.perm_samples.length_eq, hkept]
  by_cases hnone : taken = []
  · simp [hnone, recent]
  · have hpos : 0 < taken.length := List.length_pos_iff.2 hnone
    have hslots := latencySlots_pos
    rw [if_neg hnone, if_neg (by omega)]

/-- The least sample is a sample of the window, and none of the window is less. -/
theorem Tracks.minimum (h : Tracks taken l) (hsome : taken ≠ []) :
    l.slot l.least = some l.minimum ∧ l.minimum ∈ recent taken ∧ ∀ s ∈ recent taken, l.minimum ≤ s := by
  obtain ⟨m, hm, hleads⟩ := h.least.resolve_left fun hnone => hsome hnone.1
  have hminimum : l.minimum = m := by rw [Latency.minimum, hm, Option.getD_some]
  rw [hminimum]
  refine ⟨hm, h.held hm, fun s hs => ?_⟩
  have hmem : some s ∈ l.ring := h.ring ▸ mem_window.2 hs
  obtain ⟨i, hi⟩ := mem_ring.1 hmem
  exact hleads i s hi

/-! ### The order alone -/

/-- The second estimator holds the images of what the first holds, in the same slots. -/
structure Mirrors (f : Float → Float) (l l' : Latency) : Prop where
  slots : l'.slots = l.slots.map (Option.map f)
  head : l'.head = l.head
  least : l'.least = l.least

/-- The images stand in the same order as the samples of the ring. -/
def Ordered (f : Float → Float) (l : Latency) : Prop :=
  ∀ i j s t, l.slot i = some s → l.slot j = some t → (f s < f t ↔ s < t)

section Mirrors

variable {f : Float → Float} {l' : Latency}

theorem Mirrors.slot (h : Mirrors f l l') (i : Fin latencySlots) : l'.slot i = (l.slot i).map f := by
  rw [Latency.slot, h.slots]
  exact Vector.getElem_map ..

theorem Mirrors.better (h : Mirrors f l l') (hf : Ordered f l) {best : Option (Fin latencySlots × Float)}
    (hbest : ∀ j t, best = some (j, t) → l.slot j = some t) (i : Fin latencySlots) :
    l'.better (best.map (Prod.map id f)) i = (l.better best i).map (Prod.map id f) ∧
    ∀ j t, l.better best i = some (j, t) → l.slot j = some t := by
  unfold Latency.better
  rw [h.slot]
  cases hi : l.slot i with
  | none =>
    cases best with
    | none => exact ⟨rfl, fun j t ht => by cases ht⟩
    | some found => exact ⟨rfl, hbest⟩
  | some s =>
    cases best with
    | none => exact ⟨rfl, fun j t ht => by cases ht; exact hi⟩
    | some found =>
      obtain ⟨j, t⟩ := found
      have hj := hbest j t rfl
      have hless := hf i j s t hi hj
      by_cases hst : s < t
      · have hfst := hless.2 hst
        refine ⟨by simp [hst, hfst], fun k u hu => ?_⟩
        obtain ⟨rfl, rfl⟩ : i = k ∧ s = u := by simpa [hst] using hu
        exact hi
      · have hfst : ¬ f s < f t := fun hlt => hst (hless.1 hlt)
        refine ⟨by simp [hst, hfst], fun k u hu => ?_⟩
        obtain ⟨rfl, rfl⟩ : j = k ∧ t = u := by simpa [hst] using hu
        exact hj

theorem Mirrors.foldl (h : Mirrors f l l') (hf : Ordered f l) {best : Option (Fin latencySlots × Float)}
    (hbest : ∀ j t, best = some (j, t) → l.slot j = some t) (more : List (Fin latencySlots)) :
    more.foldl l'.better (best.map (Prod.map id f)) = (more.foldl l.better best).map (Prod.map id f) := by
  induction more generalizing best with
  | nil => rfl
  | cons i more ih =>
    obtain ⟨hbetter, hheld⟩ := h.better hf hbest i
    rw [List.foldl_cons, List.foldl_cons, hbetter, ih hheld]

theorem Mirrors.scan (h : Mirrors f l l') (hf : Ordered f l) : l'.scan = l.scan := by
  have hnone (j : Fin latencySlots) (t : Float) (ht : none = some (j, t)) : l.slot j = some t := by cases ht
  have hfold := h.foldl hf hnone (List.finRange latencySlots)
  rw [Option.map_none] at hfold
  rw [Latency.scan, Latency.scan, hfold, h.head]
  cases (List.finRange latencySlots).foldl l.better none <;> rfl

theorem Mirrors.store (h : Mirrors f l l') (s : Float) : Mirrors f (l.store s) (l'.store (f s)) where
  slots := by
    show l'.slots.set l'.head (some (f s)) = (l.slots.set l.head (some s)).map (Option.map f)
    simp [h.slots, h.head, Vector.map_set]
  head := h.head
  least := h.least

theorem Mirrors.renew (h : Mirrors f l l') (hf : Ordered f l) : Mirrors f l.renew l'.renew := by
  unfold Latency.renew
  rw [h.head, h.least, h.scan hf]
  split
  · exact ⟨h.slots, rfl, rfl⟩
  · exact h

theorem Mirrors.prefer (h : Mirrors f l l') (hf : Ordered f l) (hhead : l.slot l.head = some sample) :
    Mirrors f (l.prefer sample) (l'.prefer (f sample)) := by
  unfold Latency.prefer
  rw [h.slot, h.least]
  cases hm : l.slot l.least with
  | none => exact ⟨h.slots, h.head, h.head⟩
  | some m =>
    have hless : m > sample ↔ f m > f sample := (hf l.head l.least sample m hhead hm).symm
    by_cases hlt : m > sample
    · have hflt := hless.1 hlt
      simp only [Option.map_some, hlt, hflt, if_true]
      exact ⟨h.slots, h.head, h.head⟩
    · have hflt : ¬ f m > f sample := fun hflt => hlt (hless.2 hflt)
      simp only [Option.map_some, hlt, hflt, if_false]
      exact ⟨h.slots, h.head, h.least⟩

/-- The images of samples in the same order. -/
def OrderedOn (f : Float → Float) (taken : List Float) : Prop := ∀ s ∈ taken, ∀ t ∈ taken, (f s < f t ↔ s < t)

theorem Tracks.ordered (h : Tracks taken l) (hf : OrderedOn f taken) : Ordered f l :=
  fun _ _ s t hs ht => hf s (List.mem_of_mem_drop (h.held hs)) t (List.mem_of_mem_drop (h.held ht))

theorem Mirrors.report (h : Mirrors f l l') (htracks : Tracks taken l) (hsign : 0.0 < f sample ↔ 0.0 < sample)
    (hf : OrderedOn f (taken ++ positives [sample])) : Mirrors f (l.report sample) (l'.report (f sample)) := by
  by_cases hpos : 0.0 < sample
  · rw [report_of_pos hpos, report_of_pos (hsign.2 hpos)]
    have hadd := htracks.add hpos
    rw [show positives [sample] = [sample] by simp [positives, hpos]] at hf
    have hordered : Ordered f (l.store sample) := by
      have hslots : (l.add sample).slots = (l.store sample).slots := slots_add sample l
      have hslot (i : Fin latencySlots) : (l.add sample).slot i = (l.store sample).slot i := by
        rw [Latency.slot, Latency.slot, hslots]
      exact fun i j s t hs ht => hadd.ordered hf i j s t ((hslot i).trans hs) ((hslot j).trans ht)
    have hrenewed : Ordered f (l.store sample).renew := fun i j s t hs ht => by
      rw [Latency.slot, slots_renew] at hs ht
      exact hordered i j s t hs ht
    have hhead : (l.store sample).renew.slot (l.store sample).renew.head = some sample := by
      rw [Latency.slot, slots_renew, head_renew]
      exact slot_store_head sample l
    have hmirrors := ((h.store sample).renew hordered).prefer hrenewed hhead
    exact ⟨hmirrors.slots, congrArg (· + 1) hmirrors.head, hmirrors.least⟩
  · rw [report_of_not_pos hpos, report_of_not_pos fun hfpos => hpos (hsign.1 hfpos)]
    exact ⟨h.slots, h.head, h.least⟩

theorem mirrors_after {samples : List Float} (hsign : ∀ s ∈ samples, 0.0 < f s ↔ 0.0 < s)
    (hf : OrderedOn f (positives samples)) : Mirrors f (after samples) (after (samples.map f)) := by
  induction samples using List.reverseRecOn with
  | nil => exact ⟨by simp [after], rfl, rfl⟩
  | append_singleton samples s ih =>
    have hsplit : positives (samples ++ [s]) = positives samples ++ positives [s] := List.filter_append ..
    rw [hsplit] at hf
    have hearlier : OrderedOn f (positives samples) :=
      fun s hs t ht => hf s (List.mem_append_left _ hs) t (List.mem_append_left _ ht)
    rw [List.map_append, after_append, after_append]
    exact (ih (fun s hs => hsign s (List.mem_append_left _ hs)) hearlier).report (tracks_after samples)
      (hsign s (by simp)) hf

end Mirrors

/-- After any samples, those that are not positive, or not numbers, changed neither the ring nor its two
cursors. The ring holds the last of the others, oldest first from the head, and the head counts them. The
least slot holds one that is no greater than any of them, once there is one, and that is the minimum. The rate
counts as many as there are in the ring: those above the loss ratio of the minimum, and the rest. Each sample
is answered with the latency, and that is published. The order of positive numbers is total, and the slots and
both cursors come from it alone: images of the samples in the same order go to the same slots. -/
theorem recent_samples_tracked (samples : List Float) :
    (after samples).ring = window (positives samples) ∧
    (after samples).head.val = (positives samples).length % latencySlots ∧
    (positives samples ≠ [] → (after samples).slot (after samples).least = some (after samples).minimum ∧
      (∀ i s, (after samples).slot i = some s → (after samples).minimum ≤ s) ∧
      (after samples).minimum ∈ recent (positives samples) ∧
      ∀ s ∈ recent (positives samples), (after samples).minimum ≤ s) ∧
    (let kept := (recent (positives samples)).countP (!(after samples).isLost ·)
      let lost := (recent (positives samples)).countP (after samples).isLost
      kept + lost = min (positives samples).length latencySlots ∧
      (after samples).successRate =
        if positives samples = [] then 1.0 else Float.ofNat kept / Float.ofNat (kept + lost)) ∧
    (∀ s, ((after samples).measure s).1 = after (samples ++ [s]) ∧
      ((after samples).measure s).2 = (after (samples ++ [s])).minimum * (after (samples ++ [s])).successRate ∧
      (after (samples ++ [s])).published = ((after samples).measure s).2) ∧
    (∀ s, ¬ 0.0 < s → (after (samples ++ [s])).slots = (after samples).slots ∧
      (after (samples ++ [s])).head = (after samples).head ∧
      (after (samples ++ [s])).least = (after samples).least) ∧
    (∀ s : Float, s.isNaN = true → ¬ 0.0 < s) ∧
    (∀ s t u : Float, 0.0 < s → 0.0 < t → 0.0 < u →
      ¬ s < s ∧ (s < t → t < u → s < u) ∧ (s < t ∨ s = t ∨ t < s)) ∧
    ∀ f : Float → Float, (∀ s ∈ samples, 0.0 < f s ↔ 0.0 < s) → OrderedOn f (positives samples) →
      Mirrors f (after samples) (after (samples.map f)) := by
  have h := tracks_after samples
  refine ⟨h.ring, h.head, fun hsome => ?_, h.successRate, fun s => ?_, fun s hs => ?_,
    fun s hs => Magnitude.not_pos_of_isNaN hs, fun s t u hs ht hu => ?_, fun f hsign hf => mirrors_after hsign hf⟩
  · obtain ⟨hslot, hmem, hleast⟩ := h.minimum hsome
    exact ⟨hslot, fun i s hs => hleast s (h.held hs), hmem, hleast⟩
  · rw [after_append]
    exact ⟨rfl, rfl, rfl⟩
  · rw [after_append, List.foldl_cons, List.foldl_nil, report_of_not_pos hs]
    exact ⟨rfl, rfl, rfl⟩
  · exact ⟨Magnitude.not_lt_self hs, Magnitude.lt_trans hs ht hu, Magnitude.lt_or_eq_or_lt hs ht⟩

end Latency

end StreamMux
