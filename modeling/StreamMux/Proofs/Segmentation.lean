import StreamMux.Proofs.Agreement
import StreamMux.Proofs.WriteTurns

/-! How writes cut their data into frames. A write holds its connection's lock from its first segment to its
end, so the frames of a write stand together. What they bring is a beginning of its data, with the last frame
marked as the end of the message only when all of it was queued, and the credit that it took is the bytes that it
queued. -/

namespace StreamMux

/-! ### Pieces of data -/

/-- The frames bring so many bytes of the front of the data, in pieces of at most `limit` bytes and none without
bytes. The last piece of the whole data is marked as such, all others as parts. -/
inductive Split (limit : Nat) (id : Int32) (data : Bytes) : Nat → List Frame → Prop
  | part (pieces : List Bytes) (rest : Bytes) (sizes : ∀ p ∈ pieces, p ≠ [] ∧ p.length ≤ limit)
      (cut : pieces.flatten ++ rest = data) (more : rest ≠ []) :
      Split limit id data pieces.flatten.length (pieces.map fun p => .data id p true)
  | whole (pieces : List Bytes) (last : Bytes) (sizes : ∀ p ∈ pieces ++ [last], p ≠ [] ∧ p.length ≤ limit)
      (cut : pieces.flatten ++ last = data) :
      Split limit id data data.length ((pieces.map fun p => .data id p true) ++ [.data id last false])
  | nothing (empty : data = []) : Split limit id data 0 []

namespace Split

variable {limit written : Nat} {id : Int32} {data : Bytes} {frames : List Frame}

theorem start (limit : Nat) (id : Int32) (data : Bytes) : Split limit id data 0 [] := by
  by_cases hdata : data = []
  · exact .nothing hdata
  · exact .part [] data (by simp) rfl hdata

theorem eq_nil (h : Split limit id data 0 frames) : frames = [] := by
  generalize hw : 0 = written at h
  cases h with
  | part pieces rest sizes cut more =>
    cases pieces with
    | nil => rfl
    | cons p pieces =>
      have hp : 0 < p.length := List.length_pos_of_ne_nil (sizes p List.mem_cons_self).1
      simp only [List.flatten_cons, List.length_append] at hw
      omega
  | whole pieces last sizes cut =>
    have hlast : 0 < last.length := List.length_pos_of_ne_nil (sizes last (by simp)).1
    rw [← cut, List.length_append] at hw
    omega
  | nothing => rfl

theorem le (h : Split limit id data written frames) : written ≤ data.length := by
  cases h with
  | part pieces rest _ cut => simp [← cut]
  | whole => exact Nat.le_refl _
  | nothing => exact Nat.zero_le _

/-- One more piece, from where the last one ended. -/
theorem extend (h : Split limit id data written frames) (more : written < data.length) {size : Nat}
    (hsize : 0 < size) (hfit : size ≤ min (data.length - written) limit) :
    Split limit id data (written + size)
      (frames ++ [.data id ((data.drop written).take size) (decide (written + size < data.length))]) := by
  cases h with
  | part pieces rest sizes cut _ =>
    have hlength : data.length = pieces.flatten.length + rest.length := by rw [← cut, List.length_append]
    have hdrop : data.drop pieces.flatten.length = rest := by rw [← cut, List.drop_left]
    have hpiece : (rest.take size).length = size := by
      rw [List.length_take]
      omega
    have hnew (p : Bytes) (hp : p ∈ pieces ++ [rest.take size]) : p ≠ [] ∧ p.length ≤ limit := by
      rcases List.mem_append.1 hp with hp | hp
      · exact sizes p hp
      · rw [List.mem_singleton.1 hp, ← List.length_pos_iff_ne_nil, hpiece]
        omega
    have hflatten : (pieces ++ [rest.take size]).flatten = pieces.flatten ++ rest.take size := by simp
    rw [hdrop]
    by_cases hpart : pieces.flatten.length + size < data.length
    · have hcut : (pieces ++ [rest.take size]).flatten ++ rest.drop size = data := by
        rw [hflatten, List.append_assoc, List.take_append_drop, cut]
      have hrest : rest.drop size ≠ [] := by
        rw [← List.length_pos_iff_ne_nil, List.length_drop]
        omega
      have hsplit : Split limit id data _ _ := .part _ _ hnew hcut hrest
      rw [hflatten, List.length_append, hpiece, List.map_append] at hsplit
      rw [decide_eq_true hpart]
      exact hsplit
    · have hall : size = rest.length := by omega
      rw [hall, List.take_length] at hnew ⊢
      rw [decide_eq_false (by omega), ← hlength]
      exact .whole pieces rest hnew cut
  | whole => exact absurd more (Nat.lt_irrefl _)
  | nothing empty =>
    rw [empty] at more
    cases more

end Split

/-! ### Runs of segments -/

/-- The segments of the calls stand in runs, one for each call, and all calls but the last have ended. -/
def Contiguous (ended : Nat → Prop) (segments : List Outgoing) : Prop :=
  ∃ ks : List Nat, ks.Nodup ∧ (∀ k ∈ ks.dropLast, ended k) ∧
    (∀ k ∈ ks, segments.filter (·.call = some k) ≠ []) ∧
    segments = ks.flatMap fun k => segments.filter (·.call = some k)

namespace Contiguous

variable {ended ended' : Nat → Prop} {segments : List Outgoing} {k : Nat} {out : Outgoing}

theorem nil (ended : Nat → Prop) : Contiguous ended [] := ⟨[], by simp, by simp, by simp, rfl⟩

theorem mono (h : Contiguous ended segments) (hmono : ∀ k, ended k → ended' k) : Contiguous ended' segments := by
  obtain ⟨ks, hnodup, hended, hruns⟩ := h
  exact ⟨ks, hnodup, fun k hk => hmono k (hended k hk), hruns⟩

section Append

variable (hout : out.call = some k)
include hout

theorem filter_append_self :
    (segments ++ [out]).filter (·.call = some k) = segments.filter (·.call = some k) ++ [out] := by
  simp [hout]

theorem filter_append_other {j : Nat} (hj : j ≠ k) :
    (segments ++ [out]).filter (·.call = some j) = segments.filter (·.call = some j) := by
  simp [hout, Ne.symm hj]

/-- The runs of the others stay as they are. -/
theorem flatMap_append_other {js : List Nat} (hjs : k ∉ js) :
    (js.flatMap fun j => (segments ++ [out]).filter (·.call = some j)) =
      js.flatMap fun j => segments.filter (·.call = some j) := by
  apply List.flatMap_congr
  intro j hj
  apply filter_append_other hout
  rintro rfl
  exact hjs hj

/-- The runs end with that of the call. -/
theorem of_concat {js : List Nat} (hnodup : (js ++ [k]).Nodup) (hended : ∀ j ∈ js, ended j)
    (hruns : ∀ j ∈ js, segments.filter (·.call = some j) ≠ [])
    (hall : segments = (js ++ [k]).flatMap fun j => segments.filter (·.call = some j)) :
    Contiguous ended (segments ++ [out]) := by
  have hjs : k ∉ js := by
    intro hk
    exact (List.nodup_append.1 hnodup).2.2 k hk k (List.mem_singleton_self k) rfl
  refine ⟨js ++ [k], hnodup, ?_, ?_, ?_⟩
  · rw [List.dropLast_concat]
    exact hended
  · intro j hj
    rcases List.mem_append.1 hj with hold | hnew
    · have hne : j ≠ k := by
        rintro rfl
        exact hjs hold
      rw [filter_append_other hout hne]
      exact hruns j hold
    · rw [List.mem_singleton.1 hnew, filter_append_self hout]
      simp
  · rw [List.flatMap_append, List.flatMap_singleton] at hall
    rw [List.flatMap_append, List.flatMap_singleton, flatMap_append_other hout hjs, filter_append_self hout,
      ← List.append_assoc, ← hall]

/-- A call whose run is the last goes on with it; another call begins a run of its own. -/
theorem append (h : Contiguous ended segments) (hk : ¬ ended k)
    (hothers : ∀ j, j ≠ k → segments.filter (·.call = some j) ≠ [] → ended' j) :
    Contiguous ended' (segments ++ [out]) := by
  obtain ⟨ks, hnodup, hended, hruns, hall⟩ := h
  have hends {js : List Nat} (hjs : k ∉ js) (hsub : js ⊆ ks) (j : Nat) (hj : j ∈ js) : ended' j := by
    apply hothers j _ (hruns j (hsub hj))
    rintro rfl
    exact hjs hj
  by_cases hmem : k ∈ ks
  · -- all calls but the last have ended, so that this is the last
    have hne : ks ≠ [] := List.ne_nil_of_mem hmem
    have hlast : ks = ks.dropLast ++ [k] := by
      have hconcat := List.dropLast_append_getLast hne
      rw [← hconcat] at hmem
      rcases List.mem_append.1 hmem with hmem | hmem
      · exact absurd (hended k hmem) hk
      · rw [List.mem_singleton.1 hmem]
        exact hconcat.symm
    have hrest : k ∉ ks.dropLast := fun hk' => hk (hended k hk')
    rw [hlast] at hnodup hall
    exact of_concat hout hnodup (hends hrest (List.dropLast_subset ks))
      (fun j hj => hruns j (List.dropLast_subset ks hj)) hall
  · have hnone : segments.filter (·.call = some k) = [] := by
      refine List.filter_eq_nil_iff.2 fun o ho hcall => hmem ?_
      rw [hall] at ho
      obtain ⟨j, hj, hoj⟩ := List.mem_flatMap.1 ho
      have hcall' : o.call = some j := by simpa using (List.mem_filter.1 hoj).2
      have hjk : j = k := by simpa [hcall'] using hcall
      exact hjk ▸ hj
    have hnodup' : (ks ++ [k]).Nodup := by
      refine List.nodup_append.2 ⟨hnodup, by simp, fun j hj i hi => ?_⟩
      rw [List.mem_singleton.1 hi]
      rintro rfl
      exact hmem hj
    refine of_concat hout hnodup' (hends hmem (List.Subset.refl ks)) hruns ?_
    rw [List.flatMap_append, List.flatMap_singleton, hnone, List.append_nil]
    exact hall

end Append

end Contiguous

namespace CallStage

/-- So much of its data, of the size given, has a write sent at this stage. -/
def Wrote (size written : Nat) : CallStage → Prop
  | .fresh | .inLine => written = 0
  | .sending count => count = written
  | .crediting count => count = written ∧ written < size
  | .over (.written count) => count = written ∧ written = size
  | .over (.failed _) => written < size
  | .dropped => written < size ∨ size = 0
  | _ => False

theorem Wrote.eq_of_sent {stage : CallStage} {size written count : Nat} (h : stage.Wrote size written)
    (hsent : stage.sent? = some count) : count = written := by
  cases stage <;> cases hsent
  case sending => exact h
  case crediting => exact h.1

end CallStage

namespace Event

/-- A segment that was queued for the connection. -/
def segment? (n : Nat) : Event → Option Outgoing
  | .queued out => if out.conn = some n ∧ out.frame.flag.isData then some out else none
  | _ => none

/-- Credit of the connection that a call took. -/
def outlay? (n : Nat) : Event → Option (Nat × Nat)
  | .spent m k credit => if m = n then some (k, credit) else none
  | _ => none

/-- The event tells of what a call did on a connection. -/
def Of (n k : Nat) : Event → Prop
  | .queued out => out.conn = some n ∧ out.call = some k
  | .spent m j _ => m = n ∧ j = k
  | _ => False

end Event

namespace Session

variable {s t u : Session} {k n m : Nat} {data : Bytes} {w : WriteSide} {c : Call}

/-! ### What writes have sent -/

/-- The segments that were queued for a connection. -/
def segmentsOn (n : Nat) (s : Session) : List Outgoing := history (Event.segment? n) s.trace

/-- The segments that a call queued for a connection. -/
def segmentsBy (n k : Nat) (s : Session) : List Outgoing := (s.segmentsOn n).filter (·.call = some k)

/-- The credit of a connection that was taken, with the calls that took it. -/
def outlaysOn (n : Nat) (s : Session) : List (Nat × Nat) := history (Event.outlay? n) s.trace

/-- The credit of a connection that a call took. -/
def outlaysBy (n k : Nat) (s : Session) : List Nat := ((s.outlaysOn n).filter (·.1 = k)).map (·.2)

/-- The call has ended. -/
def HasEnded (s : Session) (k : Nat) : Prop := ∃ c, s.calls[k]? = some c ∧ c.isOver = true

/-- What a write has sent, and the credit that it took. -/
structure Written (limit k n : Nat) (data : Bytes) (stage : CallStage) (w : WriteSide) (s : Session) : Prop where
  turn : stage.sent?.isSome = true → w.lock.holder = some k
  split : ∃ written, stage.Wrote data.length written ∧
    Split limit w.id data written ((s.segmentsBy n k).map (·.frame))
  paid : ∃ lost : Option Nat,
    s.outlaysBy n k = (s.segmentsBy n k).map (·.frame.bytes.length) ++ lost.toList ∧
    (lost.isSome = true → stage = .over (.failed .sessionClosed) ∧ s.closed = true)

/-- What all writes have sent stands in runs, and is paid for. -/
structure Segmented (limit : Nat) (s : Session) : Prop where
  writes : ∀ (k : Nat) (c : Call) (n : Nat) (data : Bytes), s.calls[k]? = some c → c.request = .write n data →
    ∃ w, s.writeSides[n]? = some w ∧ Written limit k n data c.stage w s
  owned : ∀ (n : Nat) (out : Outgoing), out ∈ s.segmentsOn n → ∃ k data, out.call = some k ∧ s.Writes k n data
  payers : ∀ (n k credit : Nat), (k, credit) ∈ s.outlaysOn n → ∃ data, s.Writes k n data
  contiguous : ∀ n, Contiguous s.HasEnded (s.segmentsOn n)

/-! ### What a step does to it -/

namespace Acts

variable {change : WriteSide → WriteSide} {es : List Event}

theorem side (h : Acts n change es s t) {j : Nat} (hw : s.writeSides[j]? = some w) :
    t.writeSides[j]? = some (if n = j then change w else w) := by
  obtain ⟨rest, hrest⟩ := h.sides
  have hj : (s.writeSides.modify n change)[j]? = some (if n = j then change w else w) := by
    rw [List.getElem?_modify, hw]
    split <;> rfl
  rw [← hrest, List.getElem?_append_left (List.getElem?_eq_some_iff.1 hj).1, hj]

/-- Only the events named tell of data and credit. -/
theorem history_eq {β : Type} {pick : Event → Option β} (h : Acts n change es s t)
    (hpick : ∀ e, e.isSending = false → pick e = none) :
    history pick t.trace = history pick s.trace ++ history pick es := by
  obtain ⟨quiet, hquiet, htrace⟩ := h.trace
  rw [htrace, history_append fun e he => hpick e (hquiet e he)]
  simp [history]

theorem segmentsOn_eq (h : Acts n change es s t) (j : Nat) :
    t.segmentsOn j = s.segmentsOn j ++ history (Event.segment? j) es := by
  refine h.history_eq fun e he => ?_
  cases e with
  | queued out =>
    have hdata : out.frame.flag.isData = false := he
    simp [Event.segment?, hdata]
  | _ => rfl

theorem outlaysOn_eq (h : Acts n change es s t) (j : Nat) :
    t.outlaysOn j = s.outlaysOn j ++ history (Event.outlay? j) es := by
  refine h.history_eq fun e he => ?_
  cases e with
  | spent => cases he
  | _ => rfl

/-- Without events of its own, nothing is sent and nothing taken. -/
theorem same (h : Acts n change [] s t) (j : Nat) :
    t.segmentsOn j = s.segmentsOn j ∧ t.outlaysOn j = s.outlaysOn j :=
  ⟨(h.segmentsOn_eq j).trans (List.append_nil _), (h.outlaysOn_eq j).trans (List.append_nil _)⟩

end Acts

theorem Abstains.acts_nothing (h : s.Abstains t) : Acts 0 id [] s t :=
  h.acts (List.modify_id ..).symm rfl

namespace Written

variable {limit : Nat} {stage stage' : CallStage} {w' : WriteSide}

/-- What others do leaves it as it is. -/
theorem frame (h : Written limit k n data stage w s) (hturn : w.lock.holder = some k → w'.lock.holder = some k)
    (hid : w'.id = w.id) (hsegments : t.segmentsBy n k = s.segmentsBy n k)
    (houtlays : t.outlaysBy n k = s.outlaysBy n k) (hclosed : s.closed = true → t.closed = true) :
    Written limit k n data stage w' t where
  turn hsent := hturn (h.turn hsent)
  split := by
    rw [hid, hsegments]
    exact h.split
  paid := by
    obtain ⟨lost, hpaid, hwhy⟩ := h.paid
    rw [houtlays, hsegments]
    exact ⟨lost, hpaid, fun hlost => ⟨(hwhy hlost).1, hclosed (hwhy hlost).2⟩⟩

/-- A write that waits for credit has more to send. -/
theorem more (h : Written limit k n data stage w s) (m : Nat) (hstage : stage = .crediting m) : m < data.length := by
  obtain ⟨written, hwrote, -⟩ := h.split
  rw [hstage] at hwrote
  exact hwrote.1 ▸ hwrote.2

/-- A write that has not ended has lost no credit. -/
theorem paid_of_live (h : Written limit k n data stage w s) (hlive : ∀ outcome, stage ≠ .over outcome) :
    s.outlaysBy n k = (s.segmentsBy n k).map (·.frame.bytes.length) := by
  obtain ⟨lost, hpaid, hwhy⟩ := h.paid
  cases lost with
  | none => simpa using hpaid
  | some credit => exact absurd (hwhy rfl).1 (hlive _)

/-- The write goes to another stage without sending anything. -/
theorem next (h : Written limit k n data stage w s) (hlive : ∀ outcome, stage ≠ .over outcome)
    (hwrote : ∀ written ≤ data.length, stage.Wrote data.length written → stage'.Wrote data.length written)
    (hturn : stage'.sent?.isSome = true → w'.lock.holder = some k) (hid : w'.id = w.id)
    (hsegments : t.segmentsBy n k = s.segmentsBy n k) (houtlays : t.outlaysBy n k = s.outlaysBy n k) :
    Written limit k n data stage' w' t where
  turn := hturn
  split := by
    obtain ⟨written, hw, hsplit⟩ := h.split
    rw [hid, hsegments]
    exact ⟨written, hwrote written hsplit.le hw, hsplit⟩
  paid := by
    rw [houtlays, hsegments, h.paid_of_live hlive]
    exact ⟨none, by simp, by simp⟩

end Written

/-- A write that has sent something has ended, or holds the lock. -/
theorem Written.ended_or_turn {limit : Nat} (h : Written limit k n data c.stage w s) (hsent : s.segmentsBy n k ≠ []) :
    c.isOver = true ∨ w.lock.holder = some k := by
  obtain ⟨written, hwrote, hsplit⟩ := h.split
  have hpos : written ≠ 0 := by
    rintro rfl
    exact hsent (by simpa using hsplit.eq_nil)
  have hturn := h.turn
  unfold Call.isOver
  cases hstage : c.stage <;> rw [hstage] at hwrote hturn
  case fresh | inLine => exact absurd hwrote hpos
  case sending | crediting => exact .inr (hturn rfl)
  case answering | accepting | reading => cases hwrote
  · exact .inl rfl
  · exact .inl rfl

/-! ### What the events of a call tell -/

section Own

variable {change : WriteSide → WriteSide} {es : List Event} {i j : Nat} {out : Outgoing} {outlay : Nat × Nat}

theorem of_mem_segments (hes : ∀ e ∈ es, e.Of n k) (h : out ∈ history (Event.segment? i) es) :
    i = n ∧ out.call = some k := by
  obtain ⟨e, he, hpick⟩ := mem_history.1 h
  have hof := hes e he
  cases e with
  | queued o =>
    simp only [Event.segment?, Option.ite_none_right_eq_some, Option.some.injEq] at hpick
    obtain ⟨⟨hconn, -⟩, rfl⟩ := hpick
    exact ⟨Option.some.inj (hconn.symm.trans hof.1), hof.2⟩
  | _ => cases hpick

theorem of_mem_outlays (hes : ∀ e ∈ es, e.Of n k) (h : outlay ∈ history (Event.outlay? i) es) :
    i = n ∧ outlay.1 = k := by
  obtain ⟨e, he, hpick⟩ := mem_history.1 h
  have hof := hes e he
  cases e with
  | spent m j credit =>
    simp only [Event.outlay?, Option.ite_none_right_eq_some, Option.some.injEq] at hpick
    obtain ⟨rfl, rfl⟩ := hpick
    exact hof
  | _ => cases hpick

/-- What a call does adds nothing to the segments and outlays of other calls or on other connections. -/
theorem Acts.others (h : Acts n change es s t) (hes : ∀ e ∈ es, e.Of n k) (hother : i ≠ n ∨ j ≠ k) :
    t.segmentsBy i j = s.segmentsBy i j ∧ t.outlaysBy i j = s.outlaysBy i j := by
  have hsegments : (history (Event.segment? i) es).filter (·.call = some j) = [] := by
    refine List.filter_eq_nil_iff.2 fun out hout hcall => ?_
    obtain ⟨hi, hk⟩ := of_mem_segments hes hout
    have hj : j = k := Option.some.inj ((of_decide_eq_true hcall).symm.trans hk)
    exact hother.elim (fun hne => hne hi) fun hne => hne hj
  have houtlays : (history (Event.outlay? i) es).filter (·.1 = j) = [] := by
    refine List.filter_eq_nil_iff.2 fun outlay hout hcall => ?_
    obtain ⟨hi, hk⟩ := of_mem_outlays hes hout
    have hj : j = k := (of_decide_eq_true hcall).symm.trans hk
    exact hother.elim (fun hne => hne hi) fun hne => hne hj
  constructor
  · rw [segmentsBy, h.segmentsOn_eq, List.filter_append, hsegments, List.append_nil]
    rfl
  · rw [outlaysBy, h.outlaysOn_eq, List.filter_append, houtlays, List.append_nil]
    rfl

theorem isData_data (id : Int32) (data : Bytes) (part : Bool) : (Frame.data id data part).flag.isData = true := by
  cases part
  · rfl
  · rfl

/-- A call queues a segment for which it took credit. -/
theorem Acts.sent {credit : Nat} (h : Acts n change [.queued out, .spent n k credit] s t) (hconn : out.conn = some n)
    (hcall : out.call = some k) (hdata : out.frame.flag.isData = true) :
    t.segmentsOn n = s.segmentsOn n ++ [out] ∧ t.segmentsBy n k = s.segmentsBy n k ++ [out] ∧
      t.outlaysBy n k = s.outlaysBy n k ++ [credit] := by
  have hsegments : t.segmentsOn n = s.segmentsOn n ++ [out] := by
    rw [h.segmentsOn_eq]
    simp [Event.segment?, hconn, hdata]
  have houtlays : t.outlaysOn n = s.outlaysOn n ++ [(k, credit)] := by
    rw [h.outlaysOn_eq]
    simp [Event.outlay?]
  refine ⟨hsegments, ?_, by simp [outlaysBy, houtlays]⟩
  rw [segmentsBy, hsegments, Contiguous.filter_append_self hcall]
  rfl

end Own

/-! ### Steps keep it -/

/-- A change that a call makes to a write side takes the turn from nobody else. -/
structure Yields (k : Nat) (change : WriteSide → WriteSide) : Prop where
  keepsId : ∀ w, (change w).id = w.id
  turn : ∀ w j, j ≠ k → w.lock.holder = some j → (change w).lock.holder = some j

namespace Yields

theorem nothing (k : Nat) : Yields k id := ⟨fun _ => rfl, fun _ _ _ h => h⟩

theorem join (k : Nat) : Yields k (WriteSide.join k) := ⟨fun _ => rfl, fun _ _ _ h => Lock.holder_request h k⟩

theorem leave (k : Nat) : Yields k (WriteSide.leave k) := ⟨fun _ => rfl, fun _ _ hj h => Lock.holder_leave h hj⟩

theorem keep (k : Nat) (credit : UInt32) : Yields k (WriteSide.keep credit) := ⟨fun _ => rfl, fun _ _ _ h => h⟩

theorem leave_keep (k : Nat) (credit : UInt32) : Yields k (WriteSide.leave k ∘ WriteSide.keep credit) :=
  ⟨fun _ => rfl, fun _ _ hj h => Lock.holder_leave h hj⟩

end Yields

section Turn

variable {limit : Nat} {stage : CallStage} {change : WriteSide → WriteSide} {es : List Event}

/-- A write that is sending has not ended. -/
theorem isOver_of_sent (h : c.stage.sent? = some m) :
    c.isOver = false ∧ ∀ outcome, c.stage ≠ .over outcome := by
  unfold Call.isOver
  cases hstage : c.stage <;> rw [hstage] at h <;> cases h
  · exact ⟨rfl, by simp⟩
  · exact ⟨rfl, by simp⟩

theorem HasEnded.steps {j : Nat} (h : s.HasEnded j) (hc : s.calls[k]? = some c) (hlive : c.isOver = false)
    (steps : Steps k n stage change es s t) : t.HasEnded j := by
  obtain ⟨d, hd, hover⟩ := h
  have hj : k ≠ j := by
    rintro rfl
    rw [hc] at hd
    cases hd
    rw [hlive] at hover
    cases hover
  refine ⟨d, ?_, hover⟩
  rw [steps.calls, List.getElem?_modify_ne _ _ hj]
  exact hd

/-- The others that have sent something on the connection have ended, when a write has its turn there. -/
theorem Segmented.ended_of_turn (h : Segmented limit s) (hw : s.writeSides[n]? = some w)
    (hturn : w.lock.holder = some k) {j : Nat} (hj : j ≠ k) (hsent : s.segmentsBy n j ≠ []) : s.HasEnded j := by
  obtain ⟨out, hout⟩ := List.exists_mem_of_ne_nil _ hsent
  obtain ⟨hmem, hcall⟩ := List.mem_filter.1 hout
  obtain ⟨i, data, hi, d, hd, hr⟩ := h.owned n out hmem
  obtain rfl : i = j := Option.some.inj (hi.symm.trans (of_decide_eq_true hcall))
  obtain ⟨v, hv, hwritten⟩ := h.writes i d n data hd hr
  obtain rfl : v = w := Option.some.inj (hv.symm.trans hw)
  rcases hwritten.ended_or_turn hsent with hover | hholder
  · exact ⟨d, hd, hover⟩
  · exact absurd (Option.some.inj (hholder.symm.trans hturn)) hj

/-- Nothing was sent or taken for a call that there is not. -/
theorem Segmented.nothing_of_none (h : Segmented limit s) {j : Nat} (hnone : s.calls[j]? = none) (i : Nat) :
    s.segmentsBy i j = [] ∧ s.outlaysBy i j = [] := by
  constructor
  · refine List.filter_eq_nil_iff.2 fun out hout hcall => ?_
    obtain ⟨k, data, hk, d, hd, -⟩ := h.owned i out hout
    obtain rfl : k = j := Option.some.inj (hk.symm.trans (of_decide_eq_true hcall))
    rw [hnone] at hd
    cases hd
  · refine List.map_eq_nil_iff.2 (List.filter_eq_nil_iff.2 fun outlay hout hcall => ?_)
    obtain ⟨data, d, hd, -⟩ := h.payers i outlay.1 outlay.2 hout
    rw [of_decide_eq_true hcall, hnone] at hd
    cases hd

/-- What is no turn of a write keeps what writes have sent; a new write has sent nothing. -/
theorem Segmented.apart (h : Segmented limit s) (acts : Acts n change [] s t)
    (hkept : ∀ w, (change w).id = w.id ∧ (change w).lock = w.lock)
    (hcalls : ∀ (j : Nat) (d : Call) (i : Nat) (data : Bytes), t.calls[j]? = some d → d.request = .write i data →
      (∃ d', s.calls[j]? = some d' ∧ d'.request = d.request ∧ d'.stage = d.stage) ∨
      s.calls[j]? = none ∧ d.stage = .fresh ∧ ∃ w, t.writeSides[i]? = some w)
    (hended : ∀ j, s.HasEnded j → t.HasEnded j)
    (hwrites : ∀ k n data, s.Writes k n data → t.Writes k n data) (hclosed : s.closed = true → t.closed = true) :
    Segmented limit t := by
  have hsegments (i : Nat) : t.segmentsOn i = s.segmentsOn i := (acts.same i).1
  have houtlays (i : Nat) : t.outlaysOn i = s.outlaysOn i := (acts.same i).2
  have hsegmentsBy (i j : Nat) : t.segmentsBy i j = s.segmentsBy i j := by rw [segmentsBy, hsegments, segmentsBy]
  have houtlaysBy (i j : Nat) : t.outlaysBy i j = s.outlaysBy i j := by rw [outlaysBy, houtlays, outlaysBy]
  refine ⟨fun j d i data hd hr => ?_, fun i out hout => ?_, fun i j credit hpaid => ?_, fun i => ?_⟩
  · rcases hcalls j d i data hd hr with ⟨d', hd', hrequest, hstage⟩ | ⟨hnone, hfresh, w, hw⟩
    · obtain ⟨v, hv, hwritten⟩ := h.writes j d' i data hd' (hrequest.trans hr)
      refine ⟨_, acts.side hv, hstage ▸ ?_⟩
      refine hwritten.frame (fun hholder => ?_) ?_ (hsegmentsBy i j) (houtlaysBy i j) hclosed
      · split
        · rw [(hkept v).2]
          exact hholder
        · exact hholder
      · split
        · exact (hkept v).1
        · rfl
    · obtain ⟨hsegmentsNone, houtlaysNone⟩ := h.nothing_of_none hnone i
      refine ⟨w, hw, ⟨fun hsent => ?_, ⟨0, ?_, ?_⟩, none, ?_, by simp⟩⟩
      · rw [hfresh] at hsent
        cases hsent
      · rw [hfresh]
        rfl
      · rw [hsegmentsBy, hsegmentsNone]
        exact .start ..
      · rw [hsegmentsBy, houtlaysBy, hsegmentsNone, houtlaysNone]
        rfl
  · rw [hsegments] at hout
    obtain ⟨k, data, hcall, hk⟩ := h.owned i out hout
    exact ⟨k, data, hcall, hwrites _ _ _ hk⟩
  · rw [houtlays] at hpaid
    obtain ⟨data, hk⟩ := h.payers i j credit hpaid
    exact ⟨data, hwrites _ _ _ hk⟩
  · rw [hsegments]
    exact (h.contiguous i).mono hended

section Own

variable (h : Segmented limit s) (hc : s.calls[k]? = some c) (hr : c.request = .write n data)
  (hw : s.writeSides[n]? = some w) (hwrites : ∀ k n data, s.Writes k n data → t.Writes k n data)
  (hclosed : s.closed = true → t.closed = true)
include h hc hr hw hwrites hclosed

/-- A step of one write keeps what all others have sent, and their runs. -/
theorem Segmented.steps (hlive : c.isOver = false) (steps : Steps k n stage change es s t)
    (hes : ∀ e ∈ es, e.Of n k) (hyields : Yields k change)
    (hmine : Written limit k n data stage (change w) t) (hrun : Contiguous t.HasEnded (t.segmentsOn n)) :
    Segmented limit t where
  writes j d i data' hd hr' := by
    rw [steps.calls, List.getElem?_modify] at hd
    by_cases hj : k = j
    · subst hj
      rw [hc] at hd
      have hd : d = { c with stage } := by simpa using hd.symm
      obtain ⟨rfl, rfl⟩ := Request.write.inj (hr.symm.trans ((congrArg Call.request hd).symm.trans hr'))
      refine ⟨change w, ?_, hd ▸ hmine⟩
      rw [steps.side hw, if_pos rfl]
    · have hd : s.calls[j]? = some d := by simpa [hj] using hd
      obtain ⟨v, hv, hwritten⟩ := h.writes j d i data' hd hr'
      obtain ⟨hsegments, houtlays⟩ := steps.toActs.others (i := i) (j := j) hes (.inr (Ne.symm hj))
      refine ⟨_, steps.side hv, hwritten.frame (fun hholder => ?_) ?_ hsegments houtlays hclosed⟩
      · split
        · exact hyields.turn v j (Ne.symm hj) hholder
        · exact hholder
      · split
        · exact hyields.keepsId v
        · rfl
  owned i out hout := by
    rw [steps.segmentsOn_eq] at hout
    rcases List.mem_append.1 hout with hout | hout
    · obtain ⟨j, data', hcall, hj⟩ := h.owned i out hout
      exact ⟨j, data', hcall, hwrites _ _ _ hj⟩
    · obtain ⟨rfl, hcall⟩ := of_mem_segments hes hout
      exact ⟨k, data, hcall, hwrites _ _ _ ⟨c, hc, hr⟩⟩
  payers i j credit hpaid := by
    rw [steps.outlaysOn_eq] at hpaid
    rcases List.mem_append.1 hpaid with hpaid | hpaid
    · obtain ⟨data', hj⟩ := h.payers i j credit hpaid
      exact ⟨data', hwrites _ _ _ hj⟩
    · obtain ⟨rfl, rfl⟩ := of_mem_outlays hes hpaid
      exact ⟨data, hwrites _ _ _ ⟨c, hc, hr⟩⟩
  contiguous i := by
    by_cases hi : i = n
    · exact hi ▸ hrun
    · have hnone : history (Event.segment? i) es = [] := by
        refine List.eq_nil_iff_forall_not_mem.2 fun out hout => hi ?_
        exact (of_mem_segments hes hout).1
      rw [steps.segmentsOn_eq, hnone, List.append_nil]
      exact (h.contiguous i).mono fun j hj => hj.steps hc hlive steps

/-- A step without data and credit. -/
theorem Segmented.idle (hlive : c.isOver = false) (steps : Steps k n stage change [] s t)
    (hyields : Yields k change)
    (hwrote : ∀ written ≤ data.length, c.stage.Wrote data.length written → stage.Wrote data.length written)
    (hturn : stage.sent?.isSome = true → (change w).lock.holder = some k) : Segmented limit t := by
  obtain ⟨v, hv, hwritten⟩ := h.writes k c n data hc hr
  obtain rfl : v = w := Option.some.inj (hv.symm.trans hw)
  obtain ⟨hsegments, houtlays⟩ := steps.same n
  have hgoes (outcome : Outcome) : c.stage ≠ .over outcome := by
    intro hstage
    rw [Call.isOver, hstage] at hlive
    cases hlive
  refine h.steps hc hr hw hwrites hclosed hlive steps (by simp) hyields ?_ ?_
  · exact hwritten.next hgoes hwrote hturn (hyields.keepsId v) (by rw [segmentsBy, hsegments, segmentsBy])
      (by rw [outlaysBy, houtlays, outlaysBy])
  · rw [hsegments]
    exact (h.contiguous n).mono fun j hj => hj.steps hc hlive steps

/-- A write sends a segment for the credit that it takes. -/
theorem Segmented.send {credit : Nat} {left : UInt32} (hsent : c.stage.sent? = some m) (more : m < data.length)
    (some_credit : 0 < credit) (fits : credit ≤ min (data.length - m) limit)
    (steps : Steps k n (.sending (m + credit)) (WriteSide.keep left)
      [.queued { frame := .data w.id ((data.drop m).take credit) (m + credit < data.length), conn := n, call := k },
        .spent n k credit] s t) :
    Segmented limit t := by
  obtain ⟨v, hv, hwritten⟩ := h.writes k c n data hc hr
  obtain rfl : v = w := Option.some.inj (hv.symm.trans hw)
  obtain ⟨written, hwrote, hsplit⟩ := hwritten.split
  obtain rfl : m = written := hwrote.eq_of_sent hsent
  obtain ⟨hlive, hgoes⟩ := isOver_of_sent hsent
  have hturn : v.lock.holder = some k := hwritten.turn (by simp [hsent])
  let out : Outgoing :=
    { frame := .data v.id ((data.drop m).take credit) (m + credit < data.length), conn := n, call := k }
  have hbytes : out.frame.bytes.length = credit := by
    show ((data.drop m).take credit).length = credit
    rw [List.length_take, List.length_drop]
    omega
  obtain ⟨hsegments, hmine, hspent⟩ : t.segmentsOn n = s.segmentsOn n ++ [out] ∧
      t.segmentsBy n k = s.segmentsBy n k ++ [out] ∧ t.outlaysBy n k = s.outlaysBy n k ++ [credit] :=
    steps.sent rfl rfl (isData_data ..)
  refine h.steps hc hr hw hwrites hclosed hlive steps ?_ (.keep k left) ⟨fun _ => hturn, ?_, ?_⟩ ?_
  · simp [Event.Of]
  · refine ⟨m + credit, rfl, ?_⟩
    rw [hmine, List.map_append]
    exact hsplit.extend more some_credit fits
  · refine ⟨none, ?_, by simp⟩
    rw [hspent, hmine, hwritten.paid_of_live hgoes]
    simp [hbytes]
  · rw [hsegments]
    refine Contiguous.append rfl (h.contiguous n) ?_ fun j hj hsent => ?_
    · rintro ⟨d, hd, hover⟩
      rw [hc] at hd
      cases hd
      rw [hlive] at hover
      cases hover
    · exact (h.ended_of_turn hw hturn hj hsent).steps hc hlive steps

/-- A write takes credit that it has no use for. -/
theorem Segmented.waste {credit : Nat} {left : UInt32} (hsent : c.stage.sent? = some m) (more : m < data.length)
    (ended : s.closed = true)
    (steps : Steps k n (.over (.failed .sessionClosed)) (WriteSide.leave k ∘ WriteSide.keep left)
      [.spent n k credit] s t) : Segmented limit t := by
  obtain ⟨v, hv, hwritten⟩ := h.writes k c n data hc hr
  obtain rfl : v = w := Option.some.inj (hv.symm.trans hw)
  obtain ⟨written, hwrote, hsplit⟩ := hwritten.split
  obtain rfl : m = written := hwrote.eq_of_sent hsent
  have hlive := isOver_of_sent hsent
  have hsegments : t.segmentsOn n = s.segmentsOn n := by
    rw [steps.segmentsOn_eq]
    simp [Event.segment?]
  have hmine : t.segmentsBy n k = s.segmentsBy n k := by rw [segmentsBy, hsegments, segmentsBy]
  have hspent : t.outlaysBy n k = s.outlaysBy n k ++ [credit] := by
    simp [outlaysBy, steps.outlaysOn_eq, Event.outlay?]
  refine h.steps hc hr hw hwrites hclosed hlive.1 steps ?_ (.leave_keep k left) ⟨by simp [CallStage.sent?], ?_, ?_⟩ ?_
  · simp [Event.Of]
  · rw [hmine]
    exact ⟨m, more, hsplit⟩
  · refine ⟨some credit, ?_, fun _ => ⟨rfl, hclosed ended⟩⟩
    rw [hspent, hmine, hwritten.paid_of_live hlive.2]
    rfl
  · rw [hsegments]
    exact (h.contiguous n).mono fun j hj => hj.steps hc hlive.1 steps

/-- A turn of a write. -/
theorem Segmented.turn (hlimit : s.settings.maxSegment = limit) (ht : WriteTurn k n data w c s t) :
    Segmented limit t := by
  have hsent {m : Nat} (hm : c.stage.sent? = some m) : w.lock.holder = some k := by
    obtain ⟨v, hv, hwritten⟩ := h.writes k c n data hc hr
    obtain rfl : v = w := Option.some.inj (hv.symm.trans hw)
    exact hwritten.turn (by rw [hm]; rfl)
  cases ht with
  | waits calls abstains =>
    refine h.apart abstains.acts_nothing (fun _ => ⟨rfl, rfl⟩) (fun j d i data hd _ => .inl ?_) ?_ hwrites hclosed
    · exact ⟨d, calls ▸ hd, rfl, rfl⟩
    · rintro j ⟨d, hd, hover⟩
      exact ⟨d, calls ▸ hd, hover⟩
  | joins stage steps =>
    have hlive : c.isOver = false := by rw [Call.isOver, stage]
    refine h.idle hc hr hw hwrites hclosed hlive steps (.join k) (fun written _ hwrote => ?_) (by simp [CallStage.sent?])
    rw [stage] at hwrote
    exact hwrote
  | begins stage turn steps =>
    have hlive : c.isOver = false := by rw [Call.isOver, stage]
    refine h.idle hc hr hw hwrites hclosed hlive steps (.nothing k) (fun written _ hwrote => ?_) (fun _ => turn)
    rw [stage] at hwrote
    exact hwrote.symm
  | sleeps stage more steps =>
    refine h.idle hc hr hw hwrites hclosed (isOver_of_sent stage).1 steps (.nothing k) (fun written _ hwrote => ?_)
      (fun _ => hsent stage)
    obtain rfl := hwrote.eq_of_sent stage
    exact ⟨rfl, more⟩
  | sends stage more some_credit fits paid steps =>
    exact h.send hc hr hw hwrites hclosed stage more some_credit (hlimit ▸ fits) steps
  | wastes stage more some_credit fits paid ended steps =>
    exact h.waste hc hr hw hwrites hclosed stage more ended steps
  | fails cause stage more steps =>
    refine h.idle hc hr hw hwrites hclosed (isOver_of_sent stage).1 steps (.leave k) (fun written _ hwrote => ?_)
      (by simp [CallStage.sent?])
    obtain rfl := hwrote.eq_of_sent stage
    exact more
  | @completes m stage whole steps =>
    have hstage : c.stage.sent? = some m := by rw [stage]; rfl
    refine h.idle hc hr hw hwrites hclosed (isOver_of_sent hstage).1 steps (.leave k) (fun written hle hwrote => ?_)
      (by simp [CallStage.sent?])
    obtain rfl := hwrote.eq_of_sent hstage
    exact ⟨rfl, Nat.le_antisymm hle whole⟩
  | drops change live more leaves steps =>
    have hyields : Yields k change := by
      rcases leaves with rfl | rfl
      · exact .nothing k
      · exact .leave k
    refine h.idle hc hr hw hwrites hclosed live steps hyields (fun written _ hwrote => ?_) (by simp [CallStage.sent?])
    show written < data.length ∨ data.length = 0
    unfold Call.isOver at live
    cases hstage : c.stage <;> rw [hstage] at hwrote live
    case fresh | inLine =>
      have hzero : written = 0 := hwrote
      omega
    case sending count =>
      obtain rfl : count = written := hwrote
      exact .inl (more count hstage)
    case crediting => exact .inl hwrote.2
    case answering | accepting | reading => cases hwrote
    · cases live
    · cases live

end Own

/-- A call that has ended stays so. -/
theorem HasEnded.move {m : Move} {j : Nat} (h : s.HasEnded j) (hm : s.move? m = some t) : t.HasEnded j := by
  obtain ⟨d, hd, hover⟩ := h
  rcases calls_kept hm hd with ⟨first, rfl⟩ | hview
  · simp only [move?] at hm
    split at hm <;> cases hm
    exact ⟨d, by rw [run_over hd hover]; exact hd, hover⟩
  · rw [view_calls_getElem?, view_calls_getElem?, hd] at hview
    obtain ⟨d', hd', hsame⟩ := Option.map_eq_some_iff.1 hview
    have hstage : d'.stage = d.stage := congrArg Prod.snd hsame
    exact ⟨d', hd', by rw [Call.isOver, hstage]; exact hover⟩

/-- A turn of a write, as a move. -/
theorem writeTurn_of_move (hco : s.view.Coherent) (hp : s.Placed) (hlimit : 1 ≤ s.settings.maxSegment)
    (hc : s.calls[k]? = some c) (hr : c.request = .write n data) (hw : s.writeSides[n]? = some w)
    (hmore : ∀ m, c.stage = .crediting m → m < data.length) {first : Bool}
    (hm : s.move? (.run (.call k) first) = some t) :
    ∃ t' ready ready', t = { t' with ready } ∧ WriteTurn k n data w c { s with ready := ready' } t' := by
  simp only [move?] at hm
  split at hm <;> cases hm
  obtain ⟨ready, hready⟩ := exists_run (.call k) first s
  exact ⟨_, ready, s.ready.erase (.call k), hready,
    writeTurn (s := { s with ready := s.ready.erase (.call k) }) hco (hp c (List.mem_of_getElem? hc)) hlimit hc hr hw
      hmore first⟩

/-- Who is ready does not matter. -/
theorem Segmented.ready (h : Segmented limit s) (ready : List Fiber) : Segmented limit { s with ready } := by
  have habstains : s.Abstains { s with ready } := (Abstains.refl s).of_eq rfl rfl
  exact h.apart habstains.acts_nothing (fun _ => ⟨rfl, rfl⟩) (fun _ d _ _ hd _ => .inl ⟨d, hd, rfl, rfl⟩)
    (fun _ => id) (fun _ _ _ => id) id

theorem Segmented.move (h : Segmented limit s) (hs : s.settings.maxSegment = limit) (hlimit : 1 ≤ limit)
    (hco : s.view.Coherent) (hp : s.Placed) {m : Move} (hm : s.move? m = some t)
    (hsides : ∀ k n data, t.Writes k n data → ∃ w, t.writeSides[n]? = some w) : Segmented limit t := by
  have hwrites (k n : Nat) (data : Bytes) (hk : s.Writes k n data) : t.Writes k n data := hk.move hm
  have hclosed (hs : s.closed = true) : t.closed = true := by
    cases ht : t.closed
    · rw [running_of_move hco hm ht] at hs
      cases hs
    · rfl
  by_cases hturn : ∃ k n data first, s.Writes k n data ∧ m = .run (.call k) first
  · obtain ⟨k, n, data, first, ⟨c, hc, hr⟩, rfl⟩ := hturn
    obtain ⟨w, hw, hwritten⟩ := h.writes k c n data hc hr
    obtain ⟨u, ready, ready', rfl, ht⟩ := writeTurn_of_move hco hp (hs ▸ hlimit) hc hr hw hwritten.more hm
    exact ((h.ready ready').turn (t := u) hc hr hw hwrites hclosed hs ht).ready ready
  · have hnot (k n : Nat) (data : Bytes) (first : Bool) (hk : s.Writes k n data) : m ≠ .run (.call k) first :=
      fun he => hturn ⟨k, n, data, first, hk, he⟩
    have hcalls (j : Nat) (d : Call) (i : Nat) (data : Bytes) (hd : t.calls[j]? = some d)
        (hr : d.request = .write i data) :
        (∃ d', s.calls[j]? = some d' ∧ d'.request = d.request ∧ d'.stage = d.stage) ∨
        s.calls[j]? = none ∧ d.stage = .fresh ∧ ∃ w, t.writeSides[i]? = some w := by
      rcases calls_move_cases hm j with ⟨first, rfl⟩ | hview | ⟨hnone, request, hnew⟩
      · simp only [move?] at hm
        split at hm <;> cases hm
        have hrequest := (Spares.run first j s).request
        rw [hd] at hrequest
        obtain ⟨d', hd', hsame⟩ := Option.map_eq_some_iff.1 hrequest.symm
        exact absurd rfl (hnot j i data first ⟨d', hd', hsame.trans hr⟩)
      · rw [view_calls_getElem?, view_calls_getElem?, hd] at hview
        obtain ⟨d', hd', hsame⟩ := Option.map_eq_some_iff.1 hview.symm
        exact .inl ⟨d', hd', congrArg Prod.fst hsame, congrArg Prod.snd hsame⟩
      · rw [hd] at hnew
        cases hnew
        exact .inr ⟨hnone, rfl, hsides j i data ⟨_, hd, hr⟩⟩
    have hended (j : Nat) (hj : s.HasEnded j) : t.HasEnded j := hj.move hm
    rcases move_acts hm hnot with habstains | ⟨n, credit, -, -, hacts⟩
    · exact h.apart habstains.acts_nothing (fun _ => ⟨rfl, rfl⟩) hcalls hended hwrites hclosed
    · exact h.apart hacts (fun _ => ⟨rfl, rfl⟩) hcalls hended hwrites hclosed

end Turn

/-! ### The send window -/

/-- What a move makes of the credit of a connection: it stays, the peer grants some, or a call takes some. -/
inductive Spends (m : Move) (before after : UInt32) (outlays outlays' : List (Nat × Nat)) : Prop
  | keeps (credit : after = before) (taken : outlays' = outlays)
  | grants (granted : UInt32) (reads : ∃ first, m = .run .reader first)
      (credit : after.toNat = min (before.toNat + granted.toNat) 4294967295) (taken : outlays' = outlays)
  | takes (k size : Nat) (turn : ∃ first, m = .run (.call k) first)
      (credit : after.toNat + size = before.toNat) (taken : outlays' = outlays ++ [(k, size)])

section Credit

variable {change : WriteSide → WriteSide} {es : List Event} {i : Nat} {v : WriteSide}

/-- No credit is taken, and none comes in. -/
theorem Acts.keeps (h : Acts i change [] s t) (hcredit : ∀ v, (change v).credit = v.credit)
    (hw : s.writeSides[n]? = some w) (m : Move) : ∃ v, t.writeSides[n]? = some v ∧
      Spends m w.credit v.credit (s.outlaysOn n) (t.outlaysOn n) := by
  refine ⟨_, h.side hw, .keeps ?_ (h.same n).2⟩
  split
  · exact hcredit w
  · rfl

/-- A call takes credit of a connection. -/
theorem Acts.takes (h : Acts i change es s t) (hes : ∀ e ∈ es, e.Of i k) {size : Nat}
    (hnew : history (Event.outlay? i) es = [(k, size)]) (hv : s.writeSides[i]? = some v)
    (hpaid : (change v).credit.toNat + size = v.credit.toNat) (hw : s.writeSides[n]? = some w) (first : Bool) :
    ∃ v, t.writeSides[n]? = some v ∧
      Spends (.run (.call k) first) w.credit v.credit (s.outlaysOn n) (t.outlaysOn n) := by
  refine ⟨_, h.side hw, ?_⟩
  by_cases hi : i = n
  · subst hi
    obtain rfl : v = w := Option.some.inj (hv.symm.trans hw)
    rw [if_pos rfl]
    exact .takes k size ⟨first, rfl⟩ hpaid (by rw [h.outlaysOn_eq, hnew])
  · have hnone : history (Event.outlay? n) es = [] := by
      refine List.eq_nil_iff_forall_not_mem.2 fun outlay hout => hi ?_
      exact (of_mem_outlays hes hout).1.symm
    rw [if_neg hi]
    exact .keeps rfl (by rw [h.outlaysOn_eq, hnone, List.append_nil])

theorem WriteTurn.spends (h : WriteTurn k i data v c s t) (hv : s.writeSides[i]? = some v)
    (hw : s.writeSides[n]? = some w) (first : Bool) : ∃ v, t.writeSides[n]? = some v ∧
      Spends (.run (.call k) first) w.credit v.credit (s.outlaysOn n) (t.outlaysOn n) := by
  cases h with
  | waits calls abstains => exact abstains.acts_nothing.keeps (fun _ => rfl) hw _
  | joins stage steps => exact steps.keeps (fun _ => rfl) hw _
  | begins stage turn steps => exact steps.keeps (fun _ => rfl) hw _
  | sleeps stage more steps => exact steps.keeps (fun _ => rfl) hw _
  | sends stage more some_credit fits paid steps =>
    exact steps.takes (by simp [Event.Of]) (by simp [Event.outlay?]) hv paid hw first
  | wastes stage more some_credit fits paid ended steps =>
    exact steps.takes (by simp [Event.Of]) (by simp [Event.outlay?]) hv paid hw first
  | fails cause stage more steps => exact steps.keeps (fun _ => rfl) hw _
  | completes stage whole steps => exact steps.keeps (fun _ => rfl) hw _
  | drops change live more leaves steps =>
    refine steps.keeps (fun u => ?_) hw _
    rcases leaves with rfl | rfl
    · rfl
    · rfl

end Credit

/-! ### Runs -/

section Runs

variable {settings : Settings} {kind : LinkKind} {address : Option String} {capacity : Option Nat}
  {wall : Stamp} {move : Move}

theorem Reachable.exists_side (h : Reachable (start settings kind address capacity wall) s)
    (hk : s.Writes k n data) : ∃ d, s.conns[n]? = some d ∧ s.writeSides[n]? = some d.writeSide := by
  obtain ⟨c, hc, hr⟩ := hk
  have hn : n < s.conns.length := (h.tended.fits k c hc).aimed n (by rw [hr]; rfl)
  have hd : s.conns[n]? = some s.conns[n] := List.getElem?_eq_getElem hn
  exact ⟨_, hd, by rw [writeSides, List.getElem?_map, hd]; rfl⟩

theorem Reachable.segmented (h : Reachable (start settings kind address capacity wall) s)
    (hlimit : 1 ≤ settings.maxSegment) : Segmented settings.maxSegment s := by
  induction h with
  | refl =>
    refine ⟨fun k c n data hc => ?_, fun n out hout => ?_, fun n k credit hpaid => ?_, fun n => .nil _⟩
    · simp [start] at hc
    · cases hout
    · cases hpaid
  | @move t u m ht hm ih =>
    refine ih.move (congrArg Settings.maxSegment ht.sound.configured) hlimit ht.sound.coherent ht.placed hm
      fun k n data hk => ?_
    obtain ⟨d, -, hside⟩ := Reachable.exists_side (ht.move m hm) hk
    exact ⟨_, hside⟩

/-- No move takes credit without a record of it. -/
theorem Reachable.spends (h : Reachable (start settings kind address capacity wall) s)
    (hlimit : 1 ≤ settings.maxSegment) (hm : s.move? move = some t) (hw : s.writeSides[n]? = some w) :
    ∃ v, t.writeSides[n]? = some v ∧ Spends move w.credit v.credit (s.outlaysOn n) (t.outlaysOn n) := by
  by_cases hturn : ∃ k i data first, s.Writes k i data ∧ move = .run (.call k) first
  · obtain ⟨k, i, data, first, ⟨c, hc, hr⟩, rfl⟩ := hturn
    obtain ⟨v, hv, hwritten⟩ := (h.segmented hlimit).writes k c i data hc hr
    have hsettings : s.settings = settings := h.sound.configured
    obtain ⟨t', ready, ready', rfl, ht⟩ := writeTurn_of_move h.sound.coherent h.placed (hsettings ▸ hlimit) hc hr hv
      hwritten.more hm
    exact ht.spends (s := { s with ready := ready' }) hv hw first
  · have hnot (k n : Nat) (data : Bytes) (first : Bool) (hk : s.Writes k n data) : move ≠ .run (.call k) first :=
      fun he => hturn ⟨k, n, data, first, hk, he⟩
    rcases move_acts hm hnot with habstains | ⟨i, granted, first, rfl, hacts⟩
    · exact habstains.acts_nothing.keeps (fun _ => rfl) hw _
    · have houtlays := (hacts.same n).2
      refine ⟨_, hacts.side hw, ?_⟩
      by_cases hi : i = n
      · rw [if_pos hi]
        refine .grants granted ⟨first, rfl⟩ ?_ houtlays
        exact SendWindow.grant_toNat granted { remaining := w.credit }
      · rw [if_neg hi]
        exact .keeps rfl houtlays

/-- In every run, with any calls on a connection and in any order of turns, cancels, grants and closes: the
segments that the connection queued stand in runs, one for each write. Each run is a split of the front of that
write's data. A write that gives a count gives the length of its data, and its run is all of it; one that failed
or was given up has queued only parts, and not all of its data. A call takes from the send window what it queues,
and nothing else takes from it. Only a write that failed because the session had ended may have taken more. -/
theorem writes_are_contiguous (h : Reachable (start settings kind address capacity wall) s)
    (hlimit : 1 ≤ settings.maxSegment) :
    (∀ n, Contiguous s.HasEnded (s.segmentsOn n)) ∧
    (∀ n out, out ∈ s.segmentsOn n → ∃ k data, out.call = some k ∧ s.Writes k n data) ∧
    (∀ n k credit, (k, credit) ∈ s.outlaysOn n → ∃ data, s.Writes k n data) ∧
    (∀ (k : Nat) (c : Call) (n : Nat) (data : Bytes), s.calls[k]? = some c → c.request = .write n data →
      ∃ d, s.conns[n]? = some d ∧
      (∃ written, Split settings.maxSegment d.id data written ((s.segmentsBy n k).map (·.frame))) ∧
      (∀ count, c.stage = .over (.written count) → count = data.length ∧
        Split settings.maxSegment d.id data data.length ((s.segmentsBy n k).map (·.frame))) ∧
      ((c.stage = .dropped ∨ ∃ cause, c.stage = .over (.failed cause)) → data ≠ [] →
        ∃ written < data.length, Split settings.maxSegment d.id data written ((s.segmentsBy n k).map (·.frame))) ∧
      (s.outlaysBy n k = (s.segmentsBy n k).map (·.frame.bytes.length) ∨
        c.stage = .over (.failed .sessionClosed) ∧ s.closed = true ∧
        ∃ lost, s.outlaysBy n k = (s.segmentsBy n k).map (·.frame.bytes.length) ++ [lost])) ∧
    (∀ (move : Move) (t : Session) (n : Nat) (w : WriteSide), s.move? move = some t → s.writeSides[n]? = some w →
      ∃ v, t.writeSides[n]? = some v ∧ Spends move w.credit v.credit (s.outlaysOn n) (t.outlaysOn n)) := by
  have hsegmented := h.segmented hlimit
  refine ⟨hsegmented.contiguous, hsegmented.owned, hsegmented.payers, fun k c n data hc hr => ?_,
    fun move t n w hm hw => h.spends hlimit hm hw⟩
  obtain ⟨d, hd, hside⟩ := Reachable.exists_side h ⟨c, hc, hr⟩
  obtain ⟨w, hw, hwritten⟩ := hsegmented.writes k c n data hc hr
  obtain rfl : w = d.writeSide := Option.some.inj (hw.symm.trans hside)
  obtain ⟨written, hwrote, hsplit⟩ := hwritten.split
  obtain ⟨lost, hpaid, hwhy⟩ := hwritten.paid
  refine ⟨d, hd, ⟨written, hsplit⟩, fun count hstage => ?_, fun hstage hdata => ?_, ?_⟩
  · rw [hstage] at hwrote
    obtain ⟨rfl, rfl⟩ : count = written ∧ written = data.length := hwrote
    exact ⟨rfl, hsplit⟩
  · have hlength : 0 < data.length := List.length_pos_of_ne_nil hdata
    refine ⟨written, ?_, hsplit⟩
    rcases hstage with hstage | ⟨cause, hstage⟩ <;> rw [hstage] at hwrote
    · exact hwrote.resolve_right (Nat.pos_iff_ne_zero.1 hlength)
    · exact hwrote
  · cases lost with
    | none => exact .inl (by simpa using hpaid)
    | some lost => exact .inr ⟨(hwhy rfl).1, (hwhy rfl).2, lost, hpaid⟩

/-- The user accepts a connection with five bytes of credit and starts two writes of three bytes on it. The second
has its turn when the first has sent all. It sends what the credit allows, waits for more, and is given up. -/
def shortOfCredit : List Move :=
  [.run .reader true, .deliver [6, 1, 0, 0, 0], .run .reader true, .run .acceptor true, .run .acceptor true,
    .ask .accept, .run (.call 0) true, .run (.call 0) true,
    .ask (.write 0 [97, 98, 99]), .ask (.write 0 [120, 121, 122]),
    .run (.call 1) true, .run (.call 2) true, .run (.call 2) true] ++
  List.replicate 4 (.run (.call 1) true) ++ List.replicate 3 (.run (.call 2) true) ++
  [.cancel 2, .run (.call 2) true]

/-- The first message is whole, and the second, of which one segment was queued, has no last segment. -/
theorem cancelled_write_sends_parts :
    ∃ s, 1 ≤ (Settings.build [.maxSegment 2, .receiveWindow 5]).maxSegment ∧
      Reachable (start (.build [.maxSegment 2, .receiveWindow 5]) .tcp none none 0) s ∧
      (s.segmentsOn 0).map (·.frame) = [.data 1 [97, 98] true, .data 1 [99] false, .data 1 [120, 121] true] ∧
      s.outlaysOn 0 = [(1, 2), (1, 1), (2, 2)] ∧ Contiguous s.HasEnded (s.segmentsOn 0) ∧
      Split 2 1 [97, 98, 99] 3 ((s.segmentsBy 0 1).map (·.frame)) ∧
      ∃ written < 3, Split 2 1 [120, 121, 122] written ((s.segmentsBy 0 2).map (·.frame)) := by
  have hplay : ((start (.build [.maxSegment 2, .receiveWindow 5]) .tcp none none 0).playCalm shortOfCredit).any
      (fun s => s.calls = [⟨.accept, .over (.conn 0), false⟩, ⟨.write 0 [97, 98, 99], .over (.written 3), false⟩,
          ⟨.write 0 [120, 121, 122], .dropped, true⟩] ∧ s.conns.map Conn.id = [1] ∧
        (s.segmentsOn 0).map (·.frame) = [.data 1 [97, 98] true, .data 1 [99] false, .data 1 [120, 121] true] ∧
        s.outlaysOn 0 = [(1, 2), (1, 1), (2, 2)]) = true := by
    decide +kernel
  obtain ⟨s, hs, hend⟩ := (Option.any_eq_true _ _).1 hplay
  obtain ⟨hcalls, hids, hframes, houtlays⟩ := of_decide_eq_true hend
  have hlimit : 1 ≤ (Settings.build [.maxSegment 2, .receiveWindow 5]).maxSegment := by decide
  have hreach := (undisturbed_of_playCalm .refl hs).reachable
  obtain ⟨hcontiguous, -, -, hwrites, -⟩ := writes_are_contiguous hreach hlimit
  have hid {d : Conn} (hd : s.conns[0]? = some d) : d.id = 1 := by
    have hfirst := congrArg (·[0]?) hids
    simpa [hd] using hfirst
  obtain ⟨d, hd, -, hwhole, -⟩ := hwrites 1 _ 0 _ (by rw [hcalls]; rfl) rfl
  obtain ⟨d', hd', -, -, hpart, -⟩ := hwrites 2 _ 0 _ (by rw [hcalls]; rfl) rfl
  have hfirst := (hwhole 3 rfl).2
  have hsecond := hpart (.inl rfl) (by simp)
  rw [hid hd] at hfirst
  rw [hid hd'] at hsecond
  exact ⟨s, hlimit, hreach, hframes, houtlays, hcontiguous 0, hfirst, hsecond⟩

end Runs

end Session

end StreamMux
