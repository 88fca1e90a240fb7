import Mathlib.Data.List.Forall2
import Mathlib.Data.List.Infix
import Mathlib.Data.List.TakeWhile
import StreamMux.Flow.Stock
import StreamMux.Proofs.EndOfStream
import StreamMux.Proofs.Holding
import StreamMux.Proofs.Wakeups

/-! The receive window as a bounded queue of bytes. Whatever its callers do and in whatever order they run,
it holds no more than its capacity, gives out what it took in order and once, never from two segments at a
time, and loses nothing when it is stopped. The buffers that are out are those of the segments in it and of
those that were handed out, and what was reported as credit is what was given out. -/

namespace StreamMux

/-! ### One reader -/

/-- How a reader for up to `size` bytes is served by an open or stopped window: it is given the front of the
first segment with a byte, or the end, or it waits. -/
inductive ReceiveWindow.ServesBytes (w : ReceiveWindow) (size : Nat) : Option Taken → ReceiveWindow → Prop
  | front {empty rest : List Segment} {data left : Bytes} {part : Bool}
      (segments : w.segments = empty ++ ⟨data ++ left, part⟩ :: rest) (skipped : ∀ s ∈ empty, s.data = [])
      (unread : data ++ left ≠ []) (length : data.length = min size (data ++ left).length) :
      ServesBytes w size (some (.bytes data))
        (w.consume data.length (if left = [] then rest else ⟨left, part⟩ :: rest))
  | ended (stopped : w.stopped = true) (spent : ∀ s ∈ w.segments, s.data = []) :
      ServesBytes w size (some (.bytes [])) { w with segments := [] }
  | waits (running : w.stopped = false) (spent : ∀ s ∈ w.segments, s.data = []) :
      ServesBytes w size none { w with segments := [] }

/-- How a reader for a segment is served: it is given what is unread of the first segment, with the marker of
that, or the end, or it waits. -/
inductive ReceiveWindow.ServesSegment (w : ReceiveWindow) : Option Taken → ReceiveWindow → Prop
  | front {segment : Segment} {rest : List Segment} (segments : w.segments = segment :: rest) :
      ServesSegment w (some (.segment (some segment))) (w.consume segment.data.length rest)
  | ended (stopped : w.stopped = true) (spent : w.segments = []) :
      ServesSegment w (some (.segment none)) w
  | waits (running : w.stopped = false) (spent : w.segments = []) : ServesSegment w none w

namespace ReceiveWindow

variable {w w' : ReceiveWindow} {want : Want} {answer : Option Taken}

theorem servesBytes_of_serve {size : Nat} (hsize : 0 < size) (hs : w.serve (.bytes size) = (w', answer)) :
    w.ServesBytes size answer w' := by
  obtain ⟨size, rfl⟩ := Nat.exists_eq_succ_of_ne_zero hsize.ne'
  have hs : ((w.read (size + 1)).1, (w.read (size + 1)).2.map Taken.bytes) = (w', answer) := hs
  have hskipped : ∀ s ∈ w.segments.takeWhile (·.data.isEmpty), s.data = [] := fun s hs => by
    simpa using List.mem_takeWhile_imp hs
  unfold read at hs
  split at hs
  · rename_i hnone
    have hspent : ∀ s ∈ w.segments, s.data = [] := by
      simpa [List.dropWhile_eq_nil_iff] using hnone
    by_cases hstopped : w.stopped = true
    · rw [if_pos hstopped] at hs
      cases hs
      exact .ended hstopped hspent
    · rw [if_neg hstopped] at hs
      cases hs
      exact .waits (by simpa using hstopped) hspent
  · rename_i front rest hfront
    have hunread : front.data ≠ [] := by
      have := List.head?_dropWhile_not (fun s : Segment => s.data.isEmpty) w.segments
      rw [hfront] at this
      simpa using this
    have hsegments : w.segments = w.segments.takeWhile (·.data.isEmpty) ++
        ⟨front.data.take (size + 1) ++ front.data.drop (size + 1), front.part⟩ :: rest := by
      rw [List.take_append_drop, ← hfront, List.takeWhile_append_dropWhile]
    have h : w.ServesBytes (size + 1) _ _ := .front hsegments hskipped
      (by rwa [List.take_append_drop]) (by rw [List.take_append_drop, List.length_take])
    cases hs
    simpa only [Option.map_some, List.isEmpty_iff] using h

/-- A read gets no byte only at the end. -/
theorem ServesBytes.spent {size : Nat} (h : w.ServesBytes size (some (.bytes [])) w') (hsize : 0 < size) :
    w.stopped = true ∧ bytesOf w.segments = [] := by
  cases h with
  | front _ _ unread length =>
    have := List.length_pos_iff.2 unread
    rw [List.length_nil] at length
    omega
  | ended stopped spent => exact ⟨stopped, by simpa [bytesOf] using spent⟩

theorem servesSegment_of_serve (hs : w.serve .segment = (w', answer)) : w.ServesSegment answer w' := by
  have hs : (w.readSegment.1, w.readSegment.2.map Taken.segment) = (w', answer) := hs
  unfold readSegment at hs
  split at hs
  · rename_i front rest hsegments
    cases hs
    exact .front hsegments
  · rename_i hnone
    by_cases hstopped : w.stopped = true
    · rw [if_pos hstopped] at hs
      cases hs
      exact .ended hstopped hnone
    · rw [if_neg hstopped] at hs
      cases hs
      exact .waits (by simpa using hstopped) hnone

/-- A second look in vain finds what the first has left. -/
theorem serve_none_again (hs : w.serve want = (w', none)) :
    w'.serve want = (w', none) ∧ w'.segments = [] := by
  match want with
  | .bytes 0 => cases hs
  | .bytes (size + 1) =>
    cases servesBytes_of_serve size.succ_pos hs with
    | waits running => exact ⟨by simp [serve, read, running], rfl⟩
  | .segment =>
    cases servesSegment_of_serve hs with
    | waits _ spent => exact ⟨hs, spent⟩

/-- A segment is handed out from the front. -/
theorem segments_of_serve_segment {segment : Segment}
    (hs : w.serve want = (w', some (.segment (some segment)))) : w.segments = segment :: w'.segments := by
  match want with
  | .bytes 0 => cases hs
  | .bytes (size + 1) => cases servesBytes_of_serve size.succ_pos hs
  | .segment =>
    cases servesSegment_of_serve hs with
    | front segments => exact segments

/-- Who is served takes segments from the front, and perhaps a part of the next. -/
theorem segments_of_serve (hs : w.serve want = (w', answer)) : ∃ gone ≤ w.segments.length,
    w'.segments = w.segments.drop gone ∨
    ∃ data left part rest, w.segments.drop gone = ⟨data ++ left, part⟩ :: rest ∧
      w'.segments = ⟨left, part⟩ :: rest := by
  match want with
  | .bytes 0 => cases hs; exact ⟨0, Nat.zero_le _, .inl rfl⟩
  | .bytes (size + 1) =>
    cases servesBytes_of_serve size.succ_pos hs with
    | @front empty rest data left part segments skipped unread length =>
      rcases left with _ | ⟨b, left⟩
      · refine ⟨empty.length + 1, by simp [segments], .inl ?_⟩
        simp [segments, consume]
      · refine ⟨empty.length, by simp [segments], .inr ⟨data, b :: left, part, rest, ?_, ?_⟩⟩
        · simp [segments]
        · simp [consume]
    | ended | waits => exact ⟨w.segments.length, Nat.le_refl _, .inl (by simp)⟩
  | .segment =>
    cases servesSegment_of_serve hs with
    | front segments => exact ⟨1, by simp [segments], .inl (by simp [segments, consume])⟩
    | ended | waits => exact ⟨0, Nat.zero_le _, .inl rfl⟩

end ReceiveWindow

namespace Inflow

variable {κ : Type} [DecidableEq κ] {f f' : Inflow κ}

/-- The window is stopped, or has no room for the segment. -/
def Refuses (data : Bytes) (f : Inflow κ) : Prop :=
  f.state.stopped = true ∨ f.state.capacity < f.state.buffered + data.length

omit [DecidableEq κ] in
/-- A segment is refused, or goes behind those in the window. -/
theorem write_cases (id : Int32) (data : Bytes) (part : Bool) (f : Inflow κ) :
    (f.Refuses data ∧ ∃ cause, f.write id data part = .error cause) ∨
    (¬ f.Refuses data ∧ ∃ f' woken, f.write id data part = .ok (f', woken) ∧
      f'.state = { f.state with
        segments := f.state.segments ++ [⟨data, part⟩], buffered := f.state.buffered + data.length } ∧
      f'.signal.asleep ⊆ f.signal.asleep) := by
  unfold Inflow.write ReceiveWindow.write Refuses
  by_cases hstopped : f.state.stopped = true
  · exact .inl ⟨.inl hstopped, _, by rw [if_pos hstopped]; rfl⟩
  · rw [if_neg hstopped]
    by_cases hfull : f.state.capacity < f.state.buffered + data.length
    · exact .inl ⟨.inr hfull, _, by rw [if_pos hfull]; rfl⟩
    · rw [if_neg hfull]
      exact .inr ⟨by simp [hstopped, hfull], _, _, rfl, rfl, Signal.ringOne_subset f.signal⟩

/-- After a look in vain no segment is there. -/
theorem segments_of_glance_none {k : κ} {want : Want} (hvain : (f.glance k (ReceiveWindow.serve want)).2 = none)
    (hasleep : k ∈ f.signal.asleep → f.state.segments = []) :
    (f.glance k (ReceiveWindow.serve want)).1.state.segments = [] := by
  rcases hg : f.glance k (ReceiveWindow.serve want) with ⟨f', answer⟩
  rw [hg] at hvain
  obtain rfl : answer = none := hvain
  rcases Monitor.served_glance hg with ⟨hk, rfl, -⟩ | ⟨-, hserve, -⟩
  · exact hasleep hk
  · exact (ReceiveWindow.serve_none_again hserve).2

end Inflow

/-! ### Buffers -/

namespace Pool

theorem outstanding_releaseAll (buffers : List Buffer) (p : Pool) :
    (p.releaseAll buffers).outstanding = p.outstanding - buffers.length := by
  induction buffers generalizing p with
  | nil => rfl
  | cons b buffers ih =>
    have := ih (p.release b)
    simp only [releaseAll, List.foldl_cons, outstanding_release, List.length_cons] at this ⊢
    omega

theorem Tidy.releaseAll {p : Pool} (h : p.Tidy) (buffers : List Buffer) : (p.releaseAll buffers).Tidy := by
  induction buffers generalizing p with
  | nil => exact h
  | cons b buffers ih => exact ih (h.release b)

end Pool

namespace Stock

variable {κ : Type} [DecidableEq κ] {s : Stock κ} {others : Nat}

/-- The buffers hold the unread segments at their ends. -/
def Holds (segments : List Segment) (buffers : List Buffer) : Prop :=
  List.Forall₂ (fun (segment : Segment) (b : Buffer) => segment.data <:+ b.bytes) segments buffers

/-- The buffers of the segments in the window and of those that were handed out, with `others`, are all that
are out. -/
structure Sound (others : Nat) (s : Stock κ) : Prop where
  tidy : s.pool.Tidy
  holds : Holds s.inflow.state.segments s.buffers
  outstanding : s.pool.outstanding = others + s.buffers.length + s.handed.length

omit [DecidableEq κ] in
/-- The buffer of a segment that is appended is no longer one of the others. -/
theorem Sound.write (h : s.Sound (others + 1)) (id : Int32) (b : Buffer) (part : Bool) :
    (s.write id b part).1.Sound others := by
  have hout := h.outstanding
  rcases s.inflow.write_cases id b.bytes part with ⟨-, cause, hw⟩ | ⟨-, inflow, woken, hw, hstate, -⟩
  · rw [Stock.write, hw]
    exact ⟨h.tidy.release b, h.holds, by simp only [Pool.outstanding_release]; omega⟩
  · rw [Stock.write, hw]
    refine ⟨h.tidy, ?_, by simp only [List.length_append, List.length_singleton]; omega⟩
    rw [hstate]
    exact List.rel_append h.holds (.cons (List.suffix_refl _) .nil)

theorem Holds.serve {segments segments' : List Segment} {buffers : List Buffer} {gone : Nat}
    (h : Holds segments buffers) (hgone : gone ≤ segments.length)
    (hsegments : segments' = segments.drop gone ∨
      ∃ data left part rest, segments.drop gone = ⟨data ++ left, part⟩ :: rest ∧
        segments' = ⟨left, part⟩ :: rest) :
    buffers.length - segments'.length = gone ∧ Holds segments' (buffers.drop gone) := by
  have hlength := h.length_eq
  have hdrop := List.forall₂_drop gone h
  rcases hsegments with rfl | ⟨data, left, part, rest, hfront, rfl⟩
  · exact ⟨by simp only [List.length_drop]; omega, hdrop⟩
  · have hrest : rest.length + 1 = segments.length - gone := by
      have := congrArg List.length hfront
      simpa using this.symm
    refine ⟨by simp only [List.length_cons]; omega, ?_⟩
    rw [hfront] at hdrop
    generalize buffers.drop gone = lasting at hdrop ⊢
    cases hdrop with
    | cons hsuffix hrest => exact .cons ((List.suffix_append data left).trans hsuffix) hrest

omit [DecidableEq κ] in
/-- The buffers are not asked who is served. -/
theorem handOut_eq (s : Stock κ) (inflow : Inflow κ) (answer : Option Taken) :
    (s.handOut (inflow, answer)).1.inflow = inflow ∧ (s.handOut (inflow, answer)).2 = answer := by
  unfold handOut
  split <;> rename_i hserved <;> cases hserved <;> exact ⟨rfl, rfl⟩

theorem Sound.handOut (h : s.Sound others) {k : κ} {want : Want} {pause : Signal κ → Signal κ} {inflow : Inflow κ}
    {answer : Option Taken} (hserved : s.inflow.Served k (ReceiveWindow.serve want) pause inflow answer) :
    (s.handOut (inflow, answer)).1.Sound others := by
  have hout := h.outstanding
  unfold Stock.handOut
  split
  · rename_i inflow' segment hanswer
    cases hanswer
    obtain ⟨-, hserve, -⟩ := hserved.resolve_left (by simp)
    have hholds := h.holds
    rw [ReceiveWindow.segments_of_serve_segment hserve] at hholds
    rcases hbuffers : s.buffers with _ | ⟨b, buffers⟩
    · rw [hbuffers] at hholds
      cases hholds
    · rw [hbuffers] at hholds hout
      cases hholds with
      | cons _ hrest =>
        refine ⟨h.tidy, hrest, ?_⟩
        simp only [List.drop_succ_cons, List.drop_zero, List.take_succ_cons, List.take_zero,
          List.length_append, List.length_cons, List.length_nil] at hout ⊢
        omega
  · rename_i inflow' answer' _ hanswer
    cases hanswer
    have hfront : ∃ gone ≤ s.inflow.state.segments.length,
        inflow.state.segments = s.inflow.state.segments.drop gone ∨
        ∃ data left part rest, s.inflow.state.segments.drop gone = ⟨data ++ left, part⟩ :: rest ∧
          inflow.state.segments = ⟨left, part⟩ :: rest := by
      rcases hserved with ⟨-, rfl, -⟩ | ⟨-, hserve, -⟩
      · exact ⟨0, Nat.zero_le _, .inl rfl⟩
      · exact ReceiveWindow.segments_of_serve hserve
    obtain ⟨gone, hgone, hsegments⟩ := hfront
    obtain ⟨hcount, hholds⟩ := h.holds.serve hgone hsegments
    have hlength := h.holds.length_eq
    dsimp only
    rw [hcount]
    refine ⟨h.tidy.releaseAll _, hholds, ?_⟩
    simp only [Pool.outstanding_releaseAll, List.length_take, List.length_drop]
    omega

omit [DecidableEq κ] in
theorem Sound.letGo (h : s.Sound others) (i : Nat) : (s.letGo i).Sound others := by
  have hout := h.outstanding
  unfold Stock.letGo
  split
  · rename_i b hb
    obtain ⟨hlt, -⟩ := List.getElem?_eq_some_iff.1 hb
    refine ⟨h.tidy.release b, h.holds, ?_⟩
    simp only [Pool.outstanding_release, List.length_eraseIdx, if_pos hlt]
    omega
  · exact h

omit [DecidableEq κ] in
theorem Sound.takeCredit (h : s.Sound others) (threshold : Nat) : (s.takeCredit threshold).1.Sound others := by
  refine ⟨h.tidy, ?_, h.outstanding⟩
  unfold Stock.takeCredit Inflow.takeCredit ReceiveWindow.takeCredit
  dsimp only
  split <;> exact h.holds

end Stock

/-! ### Runs of a window -/

/-- A stock, with the segments that it took, what its readers were given, and the credits that were taken. -/
structure Reception (κ : Type) where
  stock : Stock κ
  accepted : List Segment := []
  given : List Taken := []
  credits : List UInt32 := []

namespace Reception

variable {κ : Type} [DecidableEq κ] {r : Reception κ} {capacity others : Nat}

/-- The window. -/
def window (r : Reception κ) : ReceiveWindow := r.stock.inflow.state

def signal (r : Reception κ) : Signal κ := r.stock.inflow.signal

/-- What the callers of a window do. -/
inductive Act (κ : Type)
  | write (id : Int32) (data : Bytes) (part : Bool)
  | take (k : κ) (want : Want)
  | look (k : κ) (want : Want)
  | settle (k : κ)
  | leave (k : κ)
  | letGo (i : Nat)
  | takeCredit (threshold : Nat)
  | stop

/-- Put bytes into a buffer of the pool, and write them. -/
def write (id : Int32) (data : Bytes) (part : Bool) (r : Reception κ) : Reception κ :=
  let (pool, b) := r.stock.pool.copy data
  match ({ r.stock with pool } : Stock κ).write id b part with
  | (stock, .ok _) => { r with stock, accepted := r.accepted ++ [⟨data, part⟩] }
  | (stock, .error _) => { r with stock }

/-- A reader has run. -/
def served (r : Reception κ) : Stock κ × Option Taken → Reception κ
  | (stock, answer) => { r with stock, given := r.given ++ answer.toList }

/-- A reader runs undisturbed. -/
def take (k : κ) (want : Want) (r : Reception κ) : Reception κ := r.served (r.stock.take k want)

/-- A reader runs up to its sleep. -/
def look (k : κ) (want : Want) (r : Reception κ) : Reception κ := r.served (r.stock.look k want)

def takeCredit (threshold : Nat) (r : Reception κ) : Reception κ :=
  let (stock, credit) := r.stock.takeCredit threshold
  { r with stock, credits := r.credits ++ credit.toList }

def act (r : Reception κ) : Act κ → Reception κ
  | .write id data part => r.write id data part
  | .take k want => r.take k want
  | .look k want => r.look k want
  | .settle k => { r with stock := r.stock.settle k }
  | .leave k => { r with stock := (r.stock.leave k).1 }
  | .letGo i => { r with stock := r.stock.letGo i }
  | .takeCredit threshold => r.takeCredit threshold
  | .stop => { r with stock := r.stock.stop.1 }

/-- An empty window, over a pool from which `others` buffers are out. -/
def opened (capacity bufferSize maxIdle others : Nat) : Reception κ where
  stock := { inflow := .withCapacity capacity, pool := { bufferSize, maxIdle, outstanding := others } }

def after (acts : List (Act κ)) (r : Reception κ) : Reception κ := acts.foldl act r

/-- What holds of a window and its buffers whatever its callers do. -/
structure Sound (capacity others : Nat) (r : Reception κ) : Prop where
  stock : r.stock.Sound others
  size : r.window.capacity = capacity
  counted : r.window.Counted
  bounded : r.window.buffered ≤ capacity
  dealt : Dealt r.accepted r.given r.window.segments
  /-- Nobody sleeps on a stopped window or is about to. -/
  awake : r.window.stopped = true → r.signal.Idle

omit [DecidableEq κ] in
theorem sound_opened (capacity bufferSize maxIdle others : Nat) :
    (opened capacity bufferSize maxIdle others : Reception κ).Sound capacity others where
  stock := ⟨by simp [Pool.Tidy, opened], .nil, rfl⟩
  size := rfl
  counted := rfl
  bounded := Nat.zero_le _
  dealt := .start _
  awake _ := ⟨rfl, rfl⟩

/-! ### Writes -/

omit [DecidableEq κ] in
/-- A write that is refused changes nothing but the pool, and leaves no buffer out. -/
theorem write_of_refuses {data : Bytes} (hr : r.stock.pool.Tidy) (h : r.stock.inflow.Refuses data)
    (id : Int32) (part : Bool) : ∃ pool, pool.outstanding = r.stock.pool.outstanding ∧
      r.write id data part = { r with stock := { r.stock with pool } } := by
  have hbytes := (hr.copy data).2
  rcases r.stock.inflow.write_cases id data part with ⟨-, cause, hw⟩ | ⟨hnot, -⟩
  · exact ⟨(r.stock.pool.copy data).1.release (r.stock.pool.copy data).2, by simp,
      by simp only [write, Stock.write, hbytes, hw]⟩
  · exact absurd h hnot

omit [DecidableEq κ] in
/-- Any other write appends a segment. -/
theorem write_of_not_refuses {data : Bytes} (hr : r.stock.pool.Tidy) (h : ¬ r.stock.inflow.Refuses data)
    (id : Int32) (part : Bool) :
    (r.write id data part).accepted = r.accepted ++ [⟨data, part⟩] ∧
      (r.write id data part).given = r.given ∧ (r.write id data part).credits = r.credits ∧
      (r.write id data part).window = { r.window with
        segments := r.window.segments ++ [⟨data, part⟩], buffered := r.window.buffered + data.length } := by
  have hbytes := (hr.copy data).2
  rcases r.stock.inflow.write_cases id data part with ⟨hfull, -⟩ | ⟨-, inflow, woken, hw, hstate, -⟩
  · exact absurd hfull h
  · simp only [write, Stock.write, hbytes, hw, window, hstate, and_self]

omit [DecidableEq κ] in
theorem Sound.write (h : r.Sound capacity others) (id : Int32) (data : Bytes) (part : Bool) :
    (r.write id data part).Sound capacity others := by
  have hstock : (r.write id data part).stock.Sound others := by
    have hcopied : ({ r.stock with pool := (r.stock.pool.copy data).1 } : Stock κ).Sound (others + 1) :=
      ⟨(h.stock.tidy.copy data).1, h.stock.holds, by
        simp only [Pool.outstanding_copy, h.stock.outstanding]
        omega⟩
    have hwritten := hcopied.write id (r.stock.pool.copy data).2 part
    unfold Reception.write
    dsimp only
    split <;> rename_i hw <;> rw [hw] at hwritten <;> exact hwritten
  by_cases hfull : r.stock.inflow.Refuses data
  · obtain ⟨pool, -, hw⟩ := write_of_refuses h.stock.tidy hfull id part
    rw [hw] at hstock ⊢
    exact ⟨hstock, h.size, h.counted, h.bounded, h.dealt, h.awake⟩
  · obtain ⟨haccepted, hgiven, -, hwindow⟩ := write_of_not_refuses h.stock.tidy hfull id part
    have hcounted := h.counted
    unfold Inflow.Refuses at hfull
    rw [not_or, Nat.not_lt] at hfull
    refine ⟨hstock, ?_, ?_, ?_, ?_, fun hstopped => ?_⟩
    · rw [hwindow]
      exact h.size
    · rw [hwindow]
      unfold ReceiveWindow.Counted at hcounted ⊢
      simp [hcounted, bytesOf]
    · rw [hwindow, ← h.size]
      exact hfull.2
    · rw [haccepted, hgiven, hwindow]
      exact h.dealt.append _
    · rw [hwindow] at hstopped
      exact absurd hstopped hfull.1

/-! ### Reads -/

/-- How a reader runs: it sleeps still, or it is served, and pauses if it is given nothing. -/
structure Reads (r : Reception κ) (k : κ) (want : Want) (pause : Signal κ → Signal κ) (next : Reception κ) :
    Prop where
  accepted : next.accepted = r.accepted
  credits : next.credits = r.credits
  sound : ∀ {others}, r.stock.Sound others → next.stock.Sound others
  served : (k ∈ r.signal.asleep ∧ next.window = r.window ∧ next.signal = r.signal ∧ next.given = r.given) ∨
    ∃ answer, k ∉ r.signal.asleep ∧ r.window.serve want = (next.window, answer) ∧
      next.given = r.given ++ answer.toList ∧
      next.signal = if answer.isSome then r.signal.rise k else pause (r.signal.rise k)

theorem reads_of_served {k : κ} {want : Want} {pause : Signal κ → Signal κ} {inflow : Inflow κ}
    {answer : Option Taken}
    (hserved : r.stock.inflow.Served k (ReceiveWindow.serve want) pause inflow answer) :
    r.Reads k want pause (r.served (r.stock.handOut (inflow, answer))) := by
  obtain ⟨hinflow, hanswer⟩ := r.stock.handOut_eq inflow answer
  refine ⟨rfl, rfl, fun h => h.handOut hserved, ?_⟩
  unfold window signal served
  dsimp only
  rw [hinflow, hanswer]
  rcases hserved with ⟨hasleep, rfl, rfl⟩ | ⟨hawake, hserve, hsignal⟩
  · exact .inl ⟨hasleep, rfl, rfl, by simp⟩
  · exact .inr ⟨answer, hawake, hserve, rfl, hsignal⟩

theorem reads (k : κ) (want : Want) (r : Reception κ) : r.Reads k want (·.sleep k) (r.take k want) :=
  reads_of_served (Monitor.served_poll rfl)

theorem looks (k : κ) (want : Want) (r : Reception κ) : r.Reads k want (·.hesitate k) (r.look k want) :=
  reads_of_served (Monitor.served_glance rfl)

/-- A reader that runs undisturbed looks and settles, and does so once more if it heard a ring that was kept. -/
theorem take_eq_look_settle {k : κ} (hk : k ∉ r.signal.asleep) (want : Want) :
    r.take k want = r.after [.look k want, .settle k] ∨
    (r.signal.kept = true ∧ r.take k want = r.after [.look k want, .settle k, .look k want, .settle k]) := by
  rcases Monitor.poll_eq_glance_settle (fun _ _ hs => (ReceiveWindow.serve_none_again hs).1) hk with
    htake | ⟨hkept, hvain, hagain, htake⟩
  · left
    show r.served (r.stock.handOut (r.stock.inflow.poll k (ReceiveWindow.serve want))) = _
    rw [htake]
    show _ = (r.served (r.stock.handOut (r.stock.inflow.glance k (ReceiveWindow.serve want)))).act (.settle k)
    rcases r.stock.inflow.glance k (ReceiveWindow.serve want) with ⟨inflow, _ | _ | _ | segment⟩ <;> rfl
  · -- The first look has passed over all segments, so the second finds no buffer to give back.
    refine .inr ⟨hkept, ?_⟩
    have hfirst := Inflow.segments_of_glance_none hvain fun hasleep => absurd hasleep hk
    have hsecond := Inflow.segments_of_glance_none hagain fun _ => hfirst
    have hlook {q : Reception κ} (hvain : (q.stock.inflow.look k want).2 = none) :
        q.look k want =
          { q with stock := (q.stock.handOut ((q.stock.inflow.look k want).1, none)).1 } := by
      show q.served (q.stock.handOut (q.stock.inflow.look k want)) = _
      rw [← Prod.eta (q.stock.inflow.look k want), hvain]
      simp [served, Stock.handOut]
    show r.served (r.stock.handOut (r.stock.inflow.poll k (ReceiveWindow.serve want))) = _
    rw [htake]
    show _ = (((r.look k want).act (.settle k)).look k want).act (.settle k)
    rw [hlook hvain, hlook]
    · simp [served, act, Stock.handOut, Stock.settle, Inflow.look, Pool.releaseAll, hfirst, hsecond]
    · exact hagain

theorem Sound.of_reads (h : r.Sound capacity others) {k : κ} {want : Want} {pause : Signal κ → Signal κ}
    {next : Reception κ} (hreads : r.Reads k want pause next) : next.Sound capacity others := by
  have hstock := hreads.sound h.stock
  have haccepted := hreads.accepted
  have hcounted := h.counted
  rcases hreads.served with ⟨-, hwindow, hsignal, hgiven⟩ | ⟨answer, -, hserve, hgiven, hsignal⟩
  · refine ⟨hstock, ?_, ?_, ?_, ?_, ?_⟩
    · rw [hwindow]; exact h.size
    · rw [hwindow]; exact h.counted
    · rw [hwindow]; exact h.bounded
    · rw [hwindow, hgiven, haccepted]; exact h.dealt
    · rw [hwindow, hsignal]; exact h.awake
  · obtain ⟨⟨count, hwindow, hcount⟩, hdealt, -⟩ := ReceiveWindow.serve_spec hserve
    unfold ReceiveWindow.Counted at hcounted
    have hbuffered : next.window.buffered = r.window.buffered - count := by rw [hwindow]; rfl
    have hstopped : next.window.stopped = r.window.stopped := by rw [hwindow]; rfl
    refine ⟨hstock, ?_, ?_, ?_, ?_, fun hstop => ?_⟩
    · rw [hwindow]; exact h.size
    · unfold ReceiveWindow.Counted
      omega
    · exact Nat.le_trans (by omega) h.bounded
    · rw [hgiven, haccepted]; exact hdealt _ _ h.dealt
    · rw [hstopped] at hstop
      obtain ⟨w, taken, hanswer, -⟩ := ReceiveWindow.serve_of_stopped hstop want
      rw [hserve] at hanswer
      cases hanswer
      obtain ⟨hasleep, hwary⟩ := h.awake hstop
      rw [hsignal]
      exact ⟨hasleep, List.eq_nil_of_subset_nil (hwary ▸ Signal.wary_rise_subset r.signal k)⟩

/-! ### Runs -/

theorem Sound.act (h : r.Sound capacity others) (a : Act κ) : (r.act a).Sound capacity others := by
  cases a with
  | write id data part => exact h.write id data part
  | take k want => exact h.of_reads (reads k want r)
  | look k want => exact h.of_reads (looks k want r)
  | settle k =>
    refine ⟨⟨h.stock.tidy, h.stock.holds, h.stock.outstanding⟩, h.size, h.counted, h.bounded, h.dealt,
      fun hstopped => ?_⟩
    have hidle := h.awake hstopped
    have hsettled : r.signal.settle k = r.signal := if_neg (by simp [hidle.2])
    exact (congrArg Signal.Idle hsettled).mpr hidle
  | leave k =>
    refine ⟨⟨h.stock.tidy, h.stock.holds, h.stock.outstanding⟩, h.size, h.counted, h.bounded, h.dealt,
      fun hstopped => ?_⟩
    obtain ⟨hasleep, hwary⟩ := h.awake hstopped
    exact ⟨List.eq_nil_of_subset_nil (hasleep ▸ Signal.leave_subset r.signal k),
      List.eq_nil_of_subset_nil (hwary ▸ Signal.wary_leave_subset r.signal k)⟩
  | letGo i =>
    have hinflow : (r.stock.letGo i).inflow = r.stock.inflow := by
      unfold Stock.letGo
      split <;> rfl
    refine ⟨h.stock.letGo i, ?_, ?_, ?_, ?_, ?_⟩ <;> simp only [Reception.act, window, signal, hinflow]
    · exact h.size
    · exact h.counted
    · exact h.bounded
    · exact h.dealt
    · exact h.awake
  | takeCredit threshold =>
    have hwindow : (r.takeCredit threshold).window = { r.window with
        consumed := (r.takeCredit threshold).window.consumed } := by
      unfold Reception.takeCredit Stock.takeCredit Inflow.takeCredit ReceiveWindow.takeCredit window
      dsimp only
      split <;> rfl
    refine ⟨h.stock.takeCredit threshold, ?_, ?_, ?_, ?_, ?_⟩ <;> simp only [Reception.act]
    · rw [hwindow]; exact h.size
    · rw [hwindow]; exact h.counted
    · rw [hwindow]; exact h.bounded
    · rw [hwindow]; exact h.dealt
    · rw [hwindow]; exact h.awake
  | stop =>
    exact ⟨⟨h.stock.tidy, h.stock.holds, h.stock.outstanding⟩, h.size, h.counted, h.bounded, h.dealt,
      fun _ => ⟨Signal.asleep_ringBoth _, Signal.wary_ringBoth _⟩⟩

theorem Sound.after (h : r.Sound capacity others) (acts : List (Act κ)) :
    (r.after acts).Sound capacity others := by
  induction acts generalizing r with
  | nil => exact h
  | cons a acts ih => exact ih (h.act a)

/-! ### Credit -/

/-- What was reported as credit and what is to be reported are all bytes that were given out. -/
def Settled (r : Reception κ) : Prop :=
  (r.credits.map UInt32.toNat).sum + r.window.consumed = (r.given.flatMap Taken.data).length

theorem Settled.of_reads (h : r.Settled) (hsound : r.Sound capacity others) {k : κ} {want : Want}
    {pause : Signal κ → Signal κ} {next : Reception κ} (hreads : r.Reads k want pause next) : next.Settled := by
  unfold Settled at h ⊢
  rcases hreads.served with ⟨-, hwindow, -, hgiven⟩ | ⟨answer, -, hserve, hgiven, -⟩
  · rw [hwindow, hgiven, hreads.credits]
    exact h
  · obtain ⟨⟨count, hwindow, hcount⟩, hdealt, -⟩ := ReceiveWindow.serve_spec hserve
    have hbefore := congrArg List.length hsound.dealt.bytes_eq
    have hafter := congrArg List.length (hdealt _ _ hsound.dealt).bytes_eq
    have hconsumed : next.window.consumed = r.window.consumed + count := by rw [hwindow]; rfl
    simp only [List.length_append] at hbefore hafter
    rw [hgiven, hreads.credits, hconsumed]
    omega

theorem Settled.act (h : r.Settled) (hsound : r.Sound capacity others) (hfit : r.window.consumed ≤ 4294967295)
    (a : Act κ) : (r.act a).Settled := by
  cases a with
  | write id data part =>
    show (r.write id data part).Settled
    by_cases hfull : r.stock.inflow.Refuses data
    · obtain ⟨pool, -, hw⟩ := write_of_refuses hsound.stock.tidy hfull id part
      rw [hw]
      exact h
    · obtain ⟨-, hgiven, hcredits, hwindow⟩ := write_of_not_refuses hsound.stock.tidy hfull id part
      unfold Settled
      rw [hgiven, hcredits, hwindow]
      exact h
  | take k want => exact h.of_reads hsound (reads k want r)
  | look k want => exact h.of_reads hsound (looks k want r)
  | settle k => exact h
  | leave k => exact h
  | letGo i =>
    have hinflow : (r.stock.letGo i).inflow = r.stock.inflow := by
      unfold Stock.letGo
      split <;> rfl
    simpa only [Settled, Reception.act, window, hinflow] using h
  | takeCredit threshold =>
    show (r.takeCredit threshold).Settled
    have hwindow : (r.takeCredit threshold).window = (r.window.takeCredit threshold).1 := rfl
    have hcredits : (r.takeCredit threshold).credits =
      r.credits ++ (r.window.takeCredit threshold).2.toList := rfl
    have hgiven : (r.takeCredit threshold).given = r.given := rfl
    unfold Settled at h ⊢
    rw [hwindow, hcredits, hgiven]
    rcases hcredit : r.window.takeCredit threshold with ⟨w, _ | credit⟩
    · have hw : w = r.window := by
        unfold ReceiveWindow.takeCredit at hcredit
        split at hcredit <;> cases hcredit
        rfl
      simpa [hw] using h
    · obtain ⟨rfl, -, hvalue⟩ := ReceiveWindow.takeCredit_some hcredit
      simp only [Option.toList_some, List.map_append, List.map_cons, List.map_nil, List.sum_append,
        List.sum_cons, List.sum_nil, Nat.add_zero, hvalue]
      omega
  | stop => exact h

theorem Settled.after (h : r.Settled) (hsound : r.Sound capacity others) (acts : List (Act κ))
    (hfit : ∀ before, before <+: acts → (r.after before).window.consumed ≤ 4294967295) :
    (r.after acts).Settled := by
  induction acts generalizing r with
  | nil => exact h
  | cons a acts ih =>
    refine ih (h.act hsound (hfit [] List.nil_prefix) a) (hsound.act a) fun before hbefore => ?_
    exact hfit (a :: before) (List.cons_prefix_cons.2 ⟨rfl, hbefore⟩)

/-! ### After the stop -/

theorem Reads.stopped_eq {k : κ} {want : Want} {pause : Signal κ → Signal κ} {next : Reception κ}
    (hreads : r.Reads k want pause next) : next.window.stopped = r.window.stopped := by
  rcases hreads.served with ⟨-, hwindow, -⟩ | ⟨answer, -, hserve, -⟩
  · rw [hwindow]
  · exact ReceiveWindow.stopped_of_serve hserve

theorem stopped_act (h : r.Sound capacity others) (hstopped : r.window.stopped = true) (a : Act κ) :
    (r.act a).window.stopped = true ∧ (r.act a).accepted = r.accepted := by
  cases a with
  | write id data part =>
    obtain ⟨pool, -, hw⟩ := write_of_refuses h.stock.tidy (.inl hstopped : r.stock.inflow.Refuses data) id part
    show (r.write id data part).window.stopped = true ∧ (r.write id data part).accepted = r.accepted
    rw [hw]
    exact ⟨hstopped, rfl⟩
  | take k want => exact ⟨(reads k want r).stopped_eq.trans hstopped, rfl⟩
  | look k want => exact ⟨(looks k want r).stopped_eq.trans hstopped, rfl⟩
  | settle k => exact ⟨hstopped, rfl⟩
  | letGo i =>
    have hinflow : (r.stock.letGo i).inflow = r.stock.inflow := by
      unfold Stock.letGo
      split <;> rfl
    exact ⟨by simpa only [Reception.act, window, hinflow] using hstopped, rfl⟩
  | takeCredit threshold =>
    refine ⟨?_, rfl⟩
    show ((r.window.takeCredit threshold).1).stopped = true
    unfold ReceiveWindow.takeCredit
    split <;> exact hstopped
  | leave k => exact ⟨hstopped, rfl⟩
  | stop => exact ⟨rfl, rfl⟩

theorem stopped_after (h : r.Sound capacity others) (hstopped : r.window.stopped = true)
    (acts : List (Act κ)) : (r.after acts).window.stopped = true ∧ (r.after acts).accepted = r.accepted := by
  induction acts generalizing r with
  | nil => exact ⟨hstopped, rfl⟩
  | cons a acts ih =>
    obtain ⟨hstep, haccepted⟩ := stopped_act h hstopped a
    exact haccepted ▸ ih (h.act a) hstep

/-- Nobody waits at a stopped window. -/
theorem given_of_stopped (h : r.Sound capacity others) (hstopped : r.window.stopped = true) (k : κ)
    (want : Want) : ∃ taken, (r.take k want).given = r.given ++ [taken] := by
  rcases (reads k want r).served with ⟨hasleep, -⟩ | ⟨answer, -, hserve, hgiven, -⟩
  · rw [(h.awake hstopped).1] at hasleep
    cases hasleep
  · obtain ⟨w, taken, hanswer, -⟩ := ReceiveWindow.serve_of_stopped hstopped want
    rw [hserve] at hanswer
    cases hanswer
    exact ⟨taken, hgiven⟩

/-- A read from a stopped window takes a byte at least, if there is one. -/
theorem buffered_take (h : r.Sound capacity others) (hstopped : r.window.stopped = true) (k : κ) {size : Nat}
    (hsize : 0 < size) : (r.take k (.bytes size)).window.buffered ≤ r.window.buffered - 1 := by
  rcases (reads k (.bytes size) r).served with ⟨hasleep, -⟩ | ⟨answer, -, hserve, -⟩
  · rw [(h.awake hstopped).1] at hasleep
    cases hasleep
  · have hcounted := h.counted
    unfold ReceiveWindow.Counted at hcounted
    generalize (r.take k (.bytes size)).window = w at hserve
    cases ReceiveWindow.servesBytes_of_serve hsize hserve with
    | front segments skipped unread length =>
      have := List.length_pos_iff.2 unread
      simp only [ReceiveWindow.consume]
      omega
    | ended _ spent | waits _ spent =>
      have hnone : bytesOf r.window.segments = [] := by simpa [bytesOf] using spent
      rw [hnone] at hcounted
      simp [hcounted]

/-- As many reads as there are bytes in a stopped window give out all that it ever took. -/
theorem given_after_reads (h : r.Sound capacity others) (hstopped : r.window.stopped = true) (k : κ)
    {size n : Nat} (hsize : 0 < size) (hn : r.window.buffered ≤ n) :
    (r.after (.replicate n (.take k (.bytes size)))).given.flatMap Taken.data = bytesOf r.accepted := by
  have hdrained : (r.after (.replicate n (.take k (.bytes size)))).window.buffered = 0 := by
    induction n generalizing r with
    | zero => exact Nat.le_zero.1 hn
    | succ n ih =>
      have := buffered_take h hstopped k hsize
      exact ih (h.act (.take k (.bytes size))) (stopped_act h hstopped _).1 (by
        show (r.take k (.bytes size)).window.buffered ≤ n
        omega)
  have hsound := h.after (.replicate n (.take k (.bytes size)))
  have hcounted := hsound.counted
  unfold ReceiveWindow.Counted at hcounted
  rw [hdrained] at hcounted
  have hall := hsound.dealt.bytes_eq
  rw [(stopped_after h hstopped _).2, List.length_eq_zero_iff.1 hcounted.symm, List.append_nil] at hall
  exact hall.symm

/-! ### The window as a queue -/

/-- In a run of the callers of a window, of any number and in any order, the unread bytes of the segments in
it are counted and never more than its capacity; what was given out is, in order, the front of what was
taken. A read takes from the first segment with a byte, from that one only, as much as fits, and gets no byte
only when the window is stopped and none is left. A reader of segments gets what is unread of the first, with
its marker, also if that is nothing. A write that does not fit, or comes after the stop, changes nothing and
leaves no buffer out; any other appends its segment. The stop leaves what the window holds and wakes all who
sleep; after it nothing is taken, nobody waits, and reads give out all that was taken. The buffers that are out are those of the segments in the window and of those
that were handed out. While never more bytes than a credit can tell wait to be reported, the credits and those
bytes are all that were given out. -/
theorem window_is_bounded_queue {capacity bufferSize maxIdle others : Nat} {acts : List (Act κ)}
    (hr : (opened capacity bufferSize maxIdle others).after acts = r) :
    (r.window.buffered = (r.window.segments.map (·.data.length)).sum ∧ r.window.buffered ≤ capacity) ∧
    r.given.flatMap Taken.data <+: bytesOf r.accepted ∧
    (∀ k size, 0 < size → k ∉ r.stock.inflow.signal.asleep → ∃ answer,
      (r.act (.take k (.bytes size))).given = r.given ++ answer.toList ∧
      r.window.ServesBytes size answer (r.act (.take k (.bytes size))).window ∧
      (answer = some (.bytes []) → r.window.stopped = true ∧ bytesOf r.window.segments = [])) ∧
    (∀ k, k ∉ r.stock.inflow.signal.asleep → ∃ answer,
      (r.act (.take k .segment)).given = r.given ++ answer.toList ∧
      r.window.ServesSegment answer (r.act (.take k .segment)).window) ∧
    (∀ id data part, r.window.stopped = true ∨ capacity < r.window.buffered + data.length →
      ∃ pool, pool.outstanding = r.stock.pool.outstanding ∧
        r.act (.write id data part) = { r with stock := { r.stock with pool } }) ∧
    (∀ id data part, r.window.stopped = false → r.window.buffered + data.length ≤ capacity →
      (r.act (.write id data part)).accepted = r.accepted ++ [⟨data, part⟩] ∧
      (r.act (.write id data part)).window.segments = r.window.segments ++ [⟨data, part⟩]) ∧
    ((r.act .stop).window = { r.window with stopped := true } ∧
      ∀ k ∈ r.stock.inflow.signal.asleep, k ∈ r.stock.stop.2) ∧
    (r.window.stopped = true →
      (∀ more, (r.after more).accepted = r.accepted ∧ (r.after more).window.stopped = true) ∧
      (∀ k want, ∃ taken, (r.act (.take k want)).given = r.given ++ [taken]) ∧
      ∀ k size n, 0 < size → r.window.buffered ≤ n →
        (r.after (.replicate n (.take k (.bytes size)))).given.flatMap Taken.data = bytesOf r.accepted) ∧
    r.stock.pool.outstanding = others + r.window.segments.length + r.stock.handed.length ∧
    ((∀ before, before <+: acts →
        ((opened capacity bufferSize maxIdle others).after before).window.consumed ≤ 4294967295) →
      (r.credits.map UInt32.toNat).sum + r.window.consumed = (r.given.flatMap Taken.data).length) := by
  have hopened : (opened capacity bufferSize maxIdle others : Reception κ).Sound capacity others :=
    sound_opened ..
  have h : r.Sound capacity others := hr ▸ hopened.after acts
  have hcapacity : r.stock.inflow.state.capacity = capacity := h.size
  refine ⟨⟨?_, h.bounded⟩, ⟨_, h.dealt.bytes_eq.symm⟩, fun k size hsize hawake => ?_, fun k hawake => ?_,
    fun id data part hfull => write_of_refuses h.stock.tidy (by rwa [Inflow.Refuses, hcapacity]) id part,
    fun id data part hopen hfits => ?_, ⟨rfl, fun k => Signal.mem_ringBoth⟩, fun hstopped => ⟨fun more => ?_, given_of_stopped h hstopped,
      fun k size n => given_after_reads h hstopped k⟩, ?_, fun hfit => ?_⟩
  · have hcounted := h.counted
    unfold ReceiveWindow.Counted at hcounted
    rw [hcounted, bytesOf, List.length_flatMap]
  · obtain ⟨answer, -, hserve, hgiven, -⟩ := (reads k (.bytes size) r).served.resolve_left fun h => hawake h.1
    have hserves := ReceiveWindow.servesBytes_of_serve hsize hserve
    exact ⟨answer, hgiven, hserves, fun hend => (hend ▸ hserves).spent hsize⟩
  · obtain ⟨answer, -, hserve, hgiven, -⟩ := (reads k .segment r).served.resolve_left fun h => hawake h.1
    exact ⟨answer, hgiven, ReceiveWindow.servesSegment_of_serve hserve⟩
  · have hfull : ¬ r.stock.inflow.Refuses data := by
      rintro (hstopped | hlong)
      · exact absurd (hopen.symm.trans hstopped) (by simp)
      · rw [hcapacity] at hlong
        exact Nat.not_lt.2 hfits hlong
    obtain ⟨haccepted, -, -, hwindow⟩ := write_of_not_refuses h.stock.tidy hfull id part
    exact ⟨haccepted, congrArg ReceiveWindow.segments hwindow⟩
  · obtain ⟨hstill, haccepted⟩ := stopped_after h hstopped more
    exact ⟨haccepted, hstill⟩
  · rw [h.stock.outstanding, ← h.stock.holds.length_eq]
    rfl
  · have hsettled : (opened capacity bufferSize maxIdle others : Reception κ).Settled := rfl
    exact hr ▸ hsettled.after hopened acts hfit

/-- Three bytes, a segment without a byte, a read of two bytes, a segment of one byte, one that does not fit, a
report, and the stop. -/
def readInPart : List (Act Nat) :=
  [.write 1 [1, 2, 3] true, .write 1 [] false, .take 0 (.bytes 2), .write 1 [4] false,
    .write 1 [5, 6, 7, 8, 9] false, .takeCredit 2, .stop]

/-- Two bytes are unread then, the other two are reported, and two reads give out the rest. -/
theorem window_read_in_part :
    (((opened 6 4096 4 0).after readInPart).act .stop).window.stopped = true ∧
    ((opened 6 4096 4 0).after readInPart).window.buffered = 2 ∧
    (((opened 6 4096 4 0).after readInPart).credits.map UInt32.toNat).sum = 2 ∧
    (((opened 6 4096 4 0).after readInPart).after
      (.replicate 2 (.take 0 (.bytes 5)))).given.flatMap Taken.data = [1, 2, 3, 4] := by
  obtain ⟨⟨hbuffered, -⟩, -, -, -, -, -, ⟨hstop, -⟩, hstopped, -, hsettled⟩ :=
    window_is_bounded_queue (r := (opened 6 4096 4 0).after readInPart) rfl
  obtain ⟨-, -, hreads⟩ := hstopped (by rfl)
  refine ⟨congrArg ReceiveWindow.stopped hstop, hbuffered, ?_, hreads 0 5 2 (by decide) (by decide)⟩
  have hfit : ∀ before ∈ readInPart.inits,
      ((opened 6 4096 4 0).after before).window.consumed ≤ 4294967295 := by decide
  exact hsettled fun before hbefore => hfit before ((List.mem_inits ..).2 hbefore)

end Reception

end StreamMux
