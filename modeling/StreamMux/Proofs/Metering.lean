import Mathlib.Data.List.Infix
import StreamMux.Proofs.Rounding
import StreamMux.Estimate.Throughput

/-! Throughput by whole windows. A history of reads and bytes is a row of windows, each closed by the first
read that starts after its bytes have reached the threshold, and the events since the last of them. The
estimator holds the bytes since then, the time the open window began and the last rate measured; what it
measured is always above zero, so the default is shown up to the first measurement and never after. -/

namespace StreamMux

namespace Throughput

open Magnitude

/-! ### Rates -/

/-- A clock counts seconds in 64 bits, and the nanoseconds of the last one. -/
def clockEnd : Nat := 2 ^ 64 * 1000000000

/-- A reading of the clock. -/
abbrev Instant := Fin clockEnd

/-- The rate of a window that took time. -/
def measured (bytes : Nat) (began ended : Instant) : Option Float :=
  if began < ended then some (Float.ofNat (min bytes maxCount) / seconds (ended - began : Nat)) else none

theorem moderate_billion : Moderate 52 1e9 := by
  have hbillion : (1e9 : Float).toModel.unpack = .finite .positive (10 ^ 9 * 2 ^ 23) (-23) (by decide) := rfl
  unfold Moderate
  rw [hbillion]
  exact .mk _ _ _ (by decide) (by decide) (by decide)

/-- Both the whole seconds and the rest may be zero, but not both at once. -/
theorem moderate_seconds {nanos : Nat} (hpos : 0 < nanos) (h : nanos < clockEnd) : Moderate 266 (seconds nanos) := by
  have hwhole : nanos / 1000000000 < 2 ^ 64 := Nat.div_lt_of_lt_mul (by rwa [clockEnd, Nat.mul_comm] at h)
  unfold seconds
  by_cases hrest : nanos % 1000000000 = 0
  · have hzero := unpack_zero_div unpack_ofNat_zero moderate_billion
    have hsecs := (moderate_ofNat (by omega) hwhole).mono (by decide : (158 : Int) ≤ 266)
    rw [hrest]
    exact moderate_add_zero hzero hsecs (by decide)
  · have hfrac := moderate_div (moderate_ofNat (Nat.pos_of_ne_zero hrest) (by omega)) moderate_billion (by decide)
    by_cases hsecs : nanos / 1000000000 = 0
    · rw [hsecs]
      exact (moderate_zero_add unpack_ofNat_zero hfrac (by decide)).mono (by decide)
    · have hsecs := (moderate_ofNat (Nat.pos_of_ne_zero hsecs) hwhole).mono (by decide : (158 : Int) ≤ 264)
      exact moderate_add hsecs hfrac (by decide)

theorem not_seconds_zero_pos : ¬ 0.0 < seconds 0 := by decide

/-- Seconds are above zero exactly when nanoseconds have passed. -/
theorem rate?_eq_measured (bytes : Nat) (began ended : Instant) :
    rate? (min bytes maxCount) began ended = measured bytes began ended := by
  unfold rate? measured
  by_cases h : began < ended
  · have hpos : 0 < (ended - began : Nat) := Nat.sub_pos_of_lt h
    have hlt : (ended - began : Nat) < clockEnd := (Nat.sub_le _ _).trans_lt ended.isLt
    rw [if_pos h]
    exact if_pos (moderate_seconds hpos hlt).pos
  · have hzero : (ended - began : Nat) = 0 := Nat.sub_eq_zero_of_le (Nat.le_of_not_lt h)
    rw [if_neg h, hzero]
    exact if_neg not_seconds_zero_pos

theorem pos_of_mem_measured {bytes : Nat} {began ended : Instant} {r : Float} (hbytes : 0 < bytes)
    (h : r ∈ measured bytes began ended) : 0.0 < r := by
  unfold measured at h
  split at h
  · rename_i hlt
    obtain rfl := Option.some_inj.1 h
    have hcount : Moderate 158 (Float.ofNat (min bytes maxCount)) :=
      moderate_ofNat (by unfold maxCount; omega) (by unfold maxCount; omega)
    have hsecs : Moderate 266 (seconds (ended - began : Nat)) :=
      moderate_seconds (Nat.sub_pos_of_lt hlt) ((Nat.sub_le _ _).trans_lt ended.isLt)
    exact (moderate_div hcount hsecs (by decide)).pos
  · cases h

/-! ### Histories -/

/-- What the reading side tells the estimator. -/
inductive Event where
  /-- A read starts. -/
  | start (now : Instant)
  /-- Payload bytes were read. -/
  | add (bytes : Nat)

def Event.bytes : Event → Nat
  | .start _ => 0
  | .add bytes => bytes

def Event.time? : Event → Option Instant
  | .start now => some now
  | .add _ => none

def occur (t : Throughput) : Event → Throughput
  | .start now => t.startRead now
  | .add bytes => t.add bytes

/-- The estimator after a history. -/
def meter (maxSegment : Nat) (history : List Event) : Throughput :=
  history.foldl occur (forSegments maxSegment)

/-- The bytes of a history, each counted once. -/
def added (history : List Event) : Nat := (history.map Event.bytes).sum

@[simp] theorem added_concat (history : List Event) (e : Event) :
    added (history ++ [e]) = added history + e.bytes := by
  simp [added]

/-- No read that starts finds the threshold reached. -/
def Unfilled (threshold : Nat) (history : List Event) : Prop :=
  ∀ before now, before ++ [.start now] <+: history → added before < threshold

/-- The events of a window, up to the read that finds the threshold reached and closes it. -/
structure Window (threshold : Nat) where
  events : List Event
  ended : Instant
  unfilled : Unfilled threshold events
  full : threshold ≤ added events

variable {threshold : Nat} {t : Throughput} {closed : List (Window threshold)} {since : List Event}

def Window.history (w : Window threshold) : List Event := w.events ++ [.start w.ended]

/-- When the open window began: with the read that closed the last one, or else with the first read. -/
def opened (closed : List (Window threshold)) (since : List Event) : Option Instant :=
  (closed.getLast?.map Window.ended).or (since.findSome? Event.time?)

/-- The rate of a window, given the windows closed before it. -/
def Window.rate? (before : List (Window threshold)) (w : Window threshold) : Option Float :=
  measured (added w.events) ((opened before w.events).getD w.ended) w.ended

def ratesAfter (before : List (Window threshold)) : List (Window threshold) → List Float
  | [] => []
  | w :: later => (w.rate? before).toList ++ ratesAfter (before ++ [w]) later

/-- The rates measured, from the first to the last. A window that took no time measures none. -/
def rates (closed : List (Window threshold)) : List Float := ratesAfter [] closed

/-! ### Unfilled windows -/

theorem unfilled_nil : Unfilled threshold [] := by
  intro before now h
  have hlen := h.length_le
  simp at hlen

theorem unfilled_concat {e : Event} : Unfilled threshold (since ++ [e]) ↔
    Unfilled threshold since ∧ ∀ now, e = .start now → added since < threshold := by
  constructor
  · intro h
    constructor
    · intro before now hpre
      exact h before now (hpre.trans (List.prefix_append since [e]))
    · rintro now rfl
      exact h since now (List.prefix_refl _)
  · rintro ⟨hsince, hlast⟩ before now hpre
    obtain heq | hpre := List.prefix_concat_iff.1 hpre
    · obtain ⟨rfl, he⟩ := List.append_inj' heq rfl
      exact hlast now (List.singleton_inj.1 he).symm
    · exact hsince before now hpre

theorem unfilled_add (bytes : Nat) (h : Unfilled threshold since) : Unfilled threshold (since ++ [.add bytes]) := by
  refine unfilled_concat.2 ⟨h, ?_⟩
  intro now hadd
  cases hadd

/-- Every history is a row of windows and what has come since. -/
theorem exists_windows (threshold : Nat) (history : List Event) :
    ∃ (closed : List (Window threshold)) (since : List Event),
      Unfilled threshold since ∧ history = closed.flatMap Window.history ++ since := by
  induction history using List.reverseRecOn with
  | nil => exact ⟨[], [], unfilled_nil, rfl⟩
  | append_singleton history e ih =>
    obtain ⟨closed, since, hsince, rfl⟩ := ih
    cases e with
    | add bytes => exact ⟨closed, since ++ [.add bytes], unfilled_add bytes hsince, List.append_assoc ..⟩
    | start now =>
      by_cases hfull : threshold ≤ added since
      · refine ⟨closed ++ [⟨since, now, hsince, hfull⟩], [], unfilled_nil, ?_⟩
        simp [Window.history]
      · refine ⟨closed, since ++ [.start now], unfilled_concat.2 ⟨hsince, ?_⟩, List.append_assoc ..⟩
        intro _ _
        exact Nat.lt_of_not_le hfull

/-! ### What one event changes -/

theorem opened_concat_add (bytes : Nat) : opened closed (since ++ [.add bytes]) = opened closed since := by
  simp [opened, Event.time?]

theorem opened_concat_start (now : Instant) :
    opened closed (since ++ [.start now]) = some ((opened closed since).getD now) := by
  unfold opened
  rw [List.findSome?_append]
  cases closed.getLast? with
  | some w => rfl
  | none => cases since.findSome? Event.time? <;> rfl

theorem ratesAfter_concat (before closed : List (Window threshold)) (w : Window threshold) :
    ratesAfter before (closed ++ [w]) = ratesAfter before closed ++ (w.rate? (before ++ closed)).toList := by
  induction closed generalizing before with
  | nil => simp [ratesAfter]
  | cons v closed ih =>
    rw [List.cons_append, ratesAfter, ih, ratesAfter, List.append_assoc, List.append_assoc, List.singleton_append]

theorem rates_concat (closed : List (Window threshold)) (w : Window threshold) :
    rates (closed ++ [w]) = rates closed ++ (w.rate? closed).toList :=
  ratesAfter_concat [] closed w

/-- A window that closes has bytes, so what it measures is above zero. -/
theorem pos_of_mem_rates (hpos : 0 < threshold) : ∀ r ∈ rates closed, 0.0 < r := by
  induction closed using List.reverseRecOn with
  | nil =>
    intro r h
    cases h
  | append_singleton closed w ih =>
    intro r h
    rw [rates_concat, List.mem_append, Option.mem_toList] at h
    obtain h | h := h
    · exact ih r h
    · exact pos_of_mem_measured (hpos.trans_le w.full) h

/-- The estimator after the windows closed and the events since. -/
structure Metered (t : Throughput) (closed : List (Window threshold)) (since : List Event) : Prop where
  threshold_eq : t.threshold = threshold
  counted_eq : t.counted = min (added since) maxCount
  windowStart_eq : t.windowStart = (opened closed since).map Fin.val
  published_eq : t.published = (rates closed).getLast?.getD 0.0

theorem metered_forSegments (maxSegment : Nat) :
    Metered (forSegments maxSegment) ([] : List (Window (maxSegment * windowSegments))) [] :=
  ⟨rfl, rfl, rfl, rfl⟩

theorem Metered.add (h : Metered t closed since) (bytes : Nat) :
    Metered (t.add bytes) closed (since ++ [.add bytes]) where
  threshold_eq := h.threshold_eq
  counted_eq := by
    show min (t.counted + bytes) maxCount = _
    rw [h.counted_eq, added_concat]
    show min (min (added since) maxCount + bytes) maxCount = min (added since + bytes) maxCount
    omega
  windowStart_eq := by rw [opened_concat_add]; exact h.windowStart_eq
  published_eq := h.published_eq

theorem Metered.start_eq (h : Metered t closed since) (now : Instant) :
    t.windowStart.getD now = ((opened closed since).getD now : Nat) := by
  rw [h.windowStart_eq]
  cases opened closed since <;> rfl

theorem Metered.startRead_of_lt (h : Metered t closed since) (hlt : added since < threshold) (now : Instant) :
    t.startRead now = { t with windowStart := some ((opened closed since).getD now : Nat) } := by
  have hopen : ¬ t.threshold ≤ t.counted := by
    rw [h.threshold_eq, h.counted_eq]
    omega
  unfold startRead
  dsimp only
  rw [if_neg hopen, h.start_eq]

theorem Metered.startRead_of_le (h : Metered t closed since) (hcount : threshold ≤ maxCount)
    (hle : threshold ≤ added since) (now : Instant) : t.startRead now = { t with
      windowStart := some now.val
      counted := 0
      published := (measured (added since) ((opened closed since).getD now) now).getD t.published } := by
  have hfull : t.threshold ≤ t.counted := by
    rw [h.threshold_eq, h.counted_eq]
    omega
  unfold startRead
  dsimp only
  rw [if_pos hfull, h.start_eq, h.counted_eq, rate?_eq_measured]

theorem Metered.wait (h : Metered t closed since) (hlt : added since < threshold) (now : Instant) :
    Metered (t.startRead now) closed (since ++ [.start now]) := by
  rw [h.startRead_of_lt hlt]
  exact {
    threshold_eq := h.threshold_eq
    counted_eq := by rw [added_concat]; exact h.counted_eq
    windowStart_eq := by rw [opened_concat_start]; rfl
    published_eq := h.published_eq }

theorem Metered.close {w : Window threshold} (h : Metered t closed w.events) (hcount : threshold ≤ maxCount) :
    Metered (t.startRead w.ended) (closed ++ [w]) [] := by
  rw [h.startRead_of_le hcount w.full]
  exact {
    threshold_eq := h.threshold_eq
    counted_eq := rfl
    windowStart_eq := by simp [opened]
    published_eq := by
      rw [rates_concat]
      show (w.rate? closed).getD t.published = _
      rw [h.published_eq]
      cases w.rate? closed <;> simp }

/-! ### Runs -/

theorem Metered.foldl (h : Metered t closed []) (hsince : Unfilled threshold since) :
    Metered (since.foldl occur t) closed since := by
  induction since using List.reverseRecOn with
  | nil => exact h
  | append_singleton since e ih =>
    obtain ⟨hbefore, hlast⟩ := unfilled_concat.1 hsince
    rw [List.foldl_concat]
    cases e with
    | start now => exact (ih hbefore).wait (hlast now rfl) now
    | add bytes => exact (ih hbefore).add bytes

theorem metered (maxSegment : Nat) (hcount : maxSegment * windowSegments ≤ maxCount)
    (closed : List (Window (maxSegment * windowSegments))) (hsince : Unfilled (maxSegment * windowSegments) since) :
    Metered (meter maxSegment (closed.flatMap Window.history ++ since)) closed since := by
  unfold meter
  rw [List.foldl_append]
  refine Metered.foldl ?_ hsince
  induction closed using List.reverseRecOn with
  | nil => exact metered_forSegments maxSegment
  | append_singleton closed w ih =>
    have hhistory : (closed ++ [w]).flatMap Window.history =
        closed.flatMap Window.history ++ w.events ++ [.start w.ended] := by simp [Window.history]
    rw [hhistory, List.foldl_concat, List.foldl_append]
    exact (ih.foldl w.unfilled).close hcount

theorem Metered.current_eq (h : Metered t closed since) (hpos : 0 < threshold) :
    t.current = (rates closed).getLast?.getD defaultThroughput := by
  unfold current shown
  rw [h.published_eq]
  cases hlast : (rates closed).getLast? with
  | none => exact if_neg (by decide)
  | some r => exact if_pos (pos_of_mem_rates hpos r (List.mem_of_getLast? hlast))

/-- The estimator samples whole windows. Every history is a row of windows, each closed by the first read that
finds the threshold reached, and the events since; the estimator has counted the bytes since, once each, knows
when the open window began and publishes the last rate measured. Only a read that finds the threshold reached
closes a window and measures it. Every rate is above zero, and the default is shown until the first. -/
theorem windows_are_sampled_whole (maxSegment : Nat) (hmin : 1 ≤ maxSegment)
    (hmax : maxSegment * windowSegments ≤ maxCount) :
    (∀ history : List Event, ∃ (closed : List (Window (maxSegment * windowSegments))) (since : List Event),
      Unfilled (maxSegment * windowSegments) since ∧ history = closed.flatMap Window.history ++ since) ∧
    ∀ (closed : List (Window (maxSegment * windowSegments))) (since : List Event),
      Unfilled (maxSegment * windowSegments) since →
      let t := meter maxSegment (closed.flatMap Window.history ++ since)
      t.counted = min (added since) maxCount ∧
        t.windowStart = (opened closed since).map Fin.val ∧
        t.published = (rates closed).getLast?.getD 0.0 ∧
        t.current = (rates closed).getLast?.getD defaultThroughput ∧
        (∀ r ∈ rates closed, 0.0 < r) ∧
        (∀ bytes, (t.add bytes).published = t.published) ∧
        (∀ now : Instant, added since < maxSegment * windowSegments →
          (t.startRead now).counted = t.counted ∧
            (t.startRead now).windowStart = some ((opened closed since).getD now).val ∧
            (t.startRead now).published = t.published) ∧
        ∀ now : Instant, maxSegment * windowSegments ≤ added since →
          (t.startRead now).counted = 0 ∧ (t.startRead now).windowStart = some now.val ∧
            (t.startRead now).published =
              (measured (added since) ((opened closed since).getD now) now).getD t.published := by
  refine ⟨exists_windows _, ?_⟩
  intro closed since hsince t
  have h : Metered t closed since := metered maxSegment hmax closed hsince
  have hpos : 0 < maxSegment * windowSegments := Nat.mul_pos hmin (by decide)
  refine ⟨h.counted_eq, h.windowStart_eq, h.published_eq, h.current_eq hpos, pos_of_mem_rates hpos, ?_, ?_, ?_⟩
  · intro bytes
    rfl
  · intro now hlt
    rw [h.startRead_of_lt hlt]
    exact ⟨rfl, rfl, rfl⟩
  · intro now hle
    rw [h.startRead_of_le hmax hle]
    exact ⟨rfl, rfl, rfl⟩

/-- The clock stands still through the second window: it is closed, but what the first measured stays. -/
theorem stillClock_sampled : 1 ≤ 1 ∧ 1 * windowSegments ≤ maxCount ∧
    let t := meter 1 [.add 50, .start ⟨5000000000, by decide⟩, .add 250, .start ⟨7000000000, by decide⟩,
      .add 400, .start ⟨7000000000, by decide⟩, .add 10]
    t.counted = 10 ∧ t.windowStart = some 7000000000 ∧ t.published = Float.ofNat 300 / seconds 2000000000 := by
  have hfirst : Unfilled (1 * windowSegments) [.add 50, .start ⟨5000000000, by decide⟩, .add 250] :=
    unfilled_add 250 (unfilled_concat.2 ⟨unfilled_add 50 unfilled_nil, by intro _ _; decide⟩)
  obtain ⟨hcounted, hbegan, hpublished, -⟩ := (windows_are_sampled_whole 1 (by decide) (by decide)).2
    [⟨_, ⟨7000000000, by decide⟩, hfirst, by decide⟩,
      ⟨[.add 400], ⟨7000000000, by decide⟩, unfilled_add 400 unfilled_nil, by decide⟩]
    [.add 10] (unfilled_add 10 unfilled_nil)
  refine ⟨by decide, by decide, hcounted, hbegan, hpublished.trans ?_⟩
  simp [rates, ratesAfter, Window.rate?, measured, opened, added, Event.bytes, Event.time?, maxCount,
    List.findSome?_cons]

end Throughput

end StreamMux
