import StreamMux.Proofs.Sole

/-! What is under way from one end to the other: the frames that the writer took and the other end has
not acted on, and those in the queue. Of what was queued under an id, the segments are what the other
end has heard and then what is under way, in order; the credit is the same without an order. -/

namespace StreamMux

/-- The segments that frames bring under an id. -/
def segmentsUnder (id : Int32) (frames : List Frame) : List Segment :=
  segmentsOf (frames.filter fun f => f.id = id)

/-- The credit that frames bring under an id. -/
def creditUnder (id : Int32) (frames : List Frame) : Nat :=
  creditOf (frames.filter fun f => f.id = id)

section Under

variable {id : Int32} {frames more : List Frame}

theorem segmentsUnder_append : segmentsUnder id (frames ++ more) =
    segmentsUnder id frames ++ segmentsUnder id more := by
  simp [segmentsUnder]

theorem creditUnder_append : creditUnder id (frames ++ more) =
    creditUnder id frames + creditUnder id more := by
  simp [creditUnder]

/-- A frame that brings a segment or credit is part of an exchange. -/
theorem eq_none_and_zero_of_not_exchange {f : Frame} (h : f.flag.isExchange = false) :
    f.segment? = none ∧ f.credit = 0 := by
  constructor
  · exact segment?_eq_none (.inl (by cases hf : f.flag <;> simp_all [Flag.isData, Flag.isExchange]))
  · exact credit_eq_zero fun hf => by rw [hf] at h; cases h

/-- Only what is exchanged counts. -/
theorem under_exchanged (id : Int32) (frames : List Frame) :
    segmentsOf (exchanged id frames) = segmentsUnder id frames ∧
      creditOf (exchanged id frames) = creditUnder id frames := by
  have hsplit : exchanged id frames =
      (frames.filter fun f => f.id = id).filter fun f => f.flag.isExchange := by
    rw [List.filter_filter]
    refine List.filter_congr fun f _ => ?_
    simp [Bool.and_comm]
  rw [hsplit, segmentsUnder, creditUnder]
  induction frames.filter (fun f => f.id = id) with
  | nil => exact ⟨rfl, rfl⟩
  | cons f frames ih =>
    cases hx : f.flag.isExchange
    · obtain ⟨hseg, hcredit⟩ := eq_none_and_zero_of_not_exchange hx
      rw [List.filter_cons_of_neg (by simp [hx])]
      exact ⟨by simpa [segmentsOf, hseg] using ih.1, by simpa [creditOf, hcredit] using ih.2⟩
    · rw [List.filter_cons_of_pos (by exact hx)]
      have hsplit (l : List Frame) : f :: l = [f] ++ l := rfl
      rw [hsplit, hsplit frames, segmentsOf_append, segmentsOf_append, creditOf_append, creditOf_append,
        ih.1, ih.2]
      exact ⟨rfl, rfl⟩

/-- Frames that all carry the id. -/
theorem under_of_named (h : ∀ f ∈ frames, f.id = id) :
    segmentsUnder id frames = segmentsOf frames ∧ creditUnder id frames = creditOf frames := by
  have : frames.filter (fun f => f.id = id) = frames := List.filter_eq_self.2 fun f hf => by simp [h f hf]
  rw [segmentsUnder, creditUnder, this]
  exact ⟨rfl, rfl⟩

end Under

namespace View

/-! ### The lanes -/

section Lanes

variable {lane : Lane} (outs : List Outgoing) (id : Int32)

/-- Segments keep to the lane that is in order with all else. -/
theorem segmentsUnder_onLane : segmentsUnder id ((onLane .normal outs).map (·.frame)) =
    segmentsUnder id (outs.map (·.frame)) := by
  induction outs with
  | nil => rfl
  | cons out outs ih =>
    by_cases hl : out.lane = .normal
    · have : onLane .normal (out :: outs) = out :: onLane .normal outs := by simp [onLane, hl]
      rw [this, List.map_cons, List.map_cons, ← List.singleton_append, segmentsUnder_append, ih,
        ← segmentsUnder_append, List.singleton_append]
    · have : onLane .normal (out :: outs) = onLane .normal outs := by simp [onLane, hl]
      have hseg : segmentsUnder id [out.frame] = [] := by
        have hnone : out.frame.segment? = none := by
          refine segment?_eq_none (.inl ?_)
          unfold Outgoing.lane at hl
          cases hf : out.frame.flag <;> simp_all [Flag.isPriority, Flag.isData]
        simp [segmentsUnder, List.filter_cons]
        split <;> simp [segmentsOf, hnone]
      rw [this, ih, List.map_cons, ← List.singleton_append, segmentsUnder_append, hseg, List.nil_append]

/-- Credit keeps to the lane that overtakes. -/
theorem creditUnder_onLane : creditUnder id ((onLane .priority outs).map (·.frame)) =
    creditUnder id (outs.map (·.frame)) := by
  induction outs with
  | nil => rfl
  | cons out outs ih =>
    by_cases hl : out.lane = .priority
    · have : onLane .priority (out :: outs) = out :: onLane .priority outs := by simp [onLane, hl]
      rw [this, List.map_cons, List.map_cons, ← List.singleton_append, creditUnder_append, ih,
        ← creditUnder_append, List.singleton_append]
    · have : onLane .priority (out :: outs) = onLane .priority outs := by simp [onLane, hl]
      have hcredit : creditUnder id [out.frame] = 0 := by
        have hzero : out.frame.credit = 0 := by
          refine credit_eq_zero fun hf => hl ?_
          simp [Outgoing.lane, hf, Flag.isPriority]
        simp [creditUnder, List.filter_cons]
        split <;> simp [creditOf, hzero]
      rw [this, ih, List.map_cons, ← List.singleton_append, creditUnder_append, hcredit, Nat.zero_add]

end Lanes

/-! ### Queue and history -/

variable {u : View} (id : Int32)

/-- The frames that are in the queue or were taken from it and not yet heard, if the other end has heard
so many. -/
def pending (heard : Nat) (u : View) : List Frame :=
  (u.started.drop heard ++ u.outbox.toList).map (·.frame)

theorem append_pending {heard : List Frame} (h : heard <+: u.started.map (·.frame)) :
    heard ++ u.pending heard.length = (u.started ++ u.outbox.toList).map (·.frame) := by
  obtain ⟨rest, hr⟩ := h
  rw [pending, List.map_append, List.map_append, List.map_drop, ← List.append_assoc, ← hr,
    List.drop_left]

/-- What was queued in a lane was started, or is in the queue, or was dropped at the end of the session. -/
theorem Orderly.queue_onLane (h : u.Orderly) (hco : u.Coherent) (lane : Lane) :
    ∃ lost, onLane lane u.queued = onLane lane (u.started ++ u.outbox.toList) ++ lost ∧
      (u.closed = false → lost = []) := by
  cases hc : u.closed
  · have hrest (lane : Lane) : onLane lane u.queued = onLane lane u.started ++ u.outbox.lane lane := by
      obtain ⟨rest, hq, hr⟩ := h.lanes lane
      rw [hq, hr hc]
    have hof (other : Lane) (hne : other ≠ lane) : onLane lane (u.outbox.lane other) = [] := by
      refine List.filter_eq_nil_iff.2 fun out hout => ?_
      have hmem : out ∈ onLane other u.queued := by
        rw [hrest]
        exact List.mem_append_right _ hout
      simpa [lane_of_mem_onLane hmem] using hne
    have hself : onLane lane (u.outbox.lane lane) = u.outbox.lane lane := by
      refine List.filter_eq_self.2 fun out hout => ?_
      have hmem : out ∈ onLane lane u.queued := by
        rw [hrest]
        exact List.mem_append_right _ hout
      simpa using lane_of_mem_onLane hmem
    have hlist : onLane lane u.outbox.toList = u.outbox.lane lane := by
      show onLane lane (u.outbox.lane .priority ++ u.outbox.lane .normal) = _
      rw [onLane_append]
      cases lane
      · rw [hself, hof .normal (by simp), List.append_nil]
      · rw [hself, hof .priority (by simp), List.nil_append]
    exact ⟨[], by rw [onLane_append, hlist, hrest, List.append_nil], fun _ => rfl⟩
  · obtain ⟨rest, hq, -⟩ := h.lanes lane
    refine ⟨rest, ?_, fun hf => by cases hf⟩
    rw [hq, hco.no_frames hc, List.append_nil]

/-- The segments queued under an id are those heard, those under way, and those dropped at the end of
the session, in order. -/
theorem Orderly.segments_queued (h : u.Orderly) (hco : u.Coherent) {heard : List Frame}
    (hheard : heard <+: u.started.map (·.frame)) :
    ∃ lost, segmentsUnder id (u.queued.map (·.frame)) =
      segmentsUnder id heard ++ segmentsUnder id (u.pending heard.length) ++ lost ∧
      (u.closed = false → lost = []) := by
  obtain ⟨lost, hq, hl⟩ := h.queue_onLane hco .normal
  refine ⟨segmentsUnder id (lost.map (·.frame)), ?_, fun hc => by rw [hl hc]; rfl⟩
  rw [← segmentsUnder_onLane, hq, List.map_append, segmentsUnder_append, segmentsUnder_onLane,
    ← append_pending hheard, segmentsUnder_append]

/-- The credit queued under an id is that heard, that under way, and that dropped at the end of the
session. -/
theorem Orderly.credit_queued (h : u.Orderly) (hco : u.Coherent) {heard : List Frame}
    (hheard : heard <+: u.started.map (·.frame)) :
    creditUnder id heard + creditUnder id (u.pending heard.length) ≤
        creditUnder id (u.queued.map (·.frame)) ∧
      (u.closed = false → creditUnder id heard + creditUnder id (u.pending heard.length) =
        creditUnder id (u.queued.map (·.frame))) := by
  obtain ⟨lost, hq, hl⟩ := h.queue_onLane hco .priority
  have hsum : creditUnder id (u.queued.map (·.frame)) = creditUnder id heard +
      creditUnder id (u.pending heard.length) + creditUnder id (lost.map (·.frame)) := by
    rw [← creditUnder_onLane, hq, List.map_append, creditUnder_append, creditUnder_onLane,
      ← append_pending hheard, creditUnder_append]
  refine ⟨by omega, fun hc => ?_⟩
  rw [hl hc] at hsum
  exact hsum.symm

end View

end StreamMux
