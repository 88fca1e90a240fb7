import StreamMux.Proofs.Codec
import StreamMux.Proofs.Ends

/-! The link of a pair keeps what it is given. What one side holds is what has arrived at the other, and
the bytes that the reader has taken, those that have arrived and those that the writer still owes are
the bytes of the frames that the writer took from its queue. So the frames that one side acts on are, in
order, the first of those that the other side took. -/

namespace StreamMux

/-- The reader has taken these bytes of the frame that it is reading. -/
def ReaderStage.Holds (maxSegment : Nat) (got : Bytes) : ReaderStage → Prop
  | .reading d => Decoder.run maxSegment .start got = .short d
  | _ => got = []

/-- The reader goes on where it is. -/
theorem ReaderStage.Holds.run {maxSegment : Nat} {d : Decoder} {got : Bytes}
    (h : (ReaderStage.reading d).Holds maxSegment got) (bytes : Bytes) :
    Decoder.run maxSegment .start (got ++ bytes) = d.run maxSegment bytes := by
  have hgot : Decoder.run maxSegment .start got = .short d := h
  rw [Decoder.run_append, hgot]

/-- The writer has these bytes of its frame yet to write. -/
def WriterStage.Owes (owed : Bytes) : WriterStage → Prop
  | .idle => owed = []
  | .writing rest => owed = rest
  | .over => True

/-- What the frames of a queue are to their reader. -/
def heardAs (outs : List Outgoing) : List Frame := outs.map fun out => out.frame.normal

/-- The bytes of the frames of a queue. -/
def wires (outs : List Outgoing) : Bytes := outs.flatMap fun out => out.frame.wire

theorem wires_append (outs more : List Outgoing) : wires (outs ++ more) = wires outs ++ wires more :=
  List.flatMap_append

theorem run_wires_cons {maxSegment : Nat} {out : Outgoing} {bytes : Bytes}
    (h : out.frame.encode maxSegment = .ok bytes) (outs : List Outgoing) :
    Decoder.run maxSegment .start (wires (out :: outs)) = .frame out.frame.normal (wires outs) := by
  obtain ⟨rfl, hrun⟩ := Decoder.run_of_encode h (wires outs)
  exact hrun

/-- The direction from `x` to `y` of a link. -/
structure Linked (x y : Ends) : Prop where
  maxSegment : x.maxSegment = y.maxSegment
  held : x.held = y.arrived
  heard : y.dispatched <+: heardAs x.started
  /-- The frames under way: those whose bytes were given to the link, and one that never will be. -/
  wire : y.reader ≠ .over → ∃ sent unsent got owed,
    x.started.drop y.dispatched.length = sent ++ unsent ∧ (x.writer ≠ .over → unsent = []) ∧
    (∀ out ∈ sent, ∃ bytes, out.frame.encode x.maxSegment = .ok bytes) ∧
    wires sent = got ++ y.arrived ++ owed ∧ y.reader.Holds y.maxSegment got ∧ x.writer.Owes owed

namespace Linked

variable {x x' y y' : Ends}

/-! ### The sending end -/

theorem heardAs_append (outs more : List Outgoing) :
    heardAs (outs ++ more) = heardAs outs ++ heardAs more := List.map_append

theorem length_le (h : Linked x y) : y.dispatched.length ≤ x.started.length := by
  have := h.heard.length_le
  rwa [heardAs, List.length_map] at this

/-- A turn at the sending end, with the bytes that it gave to the link brought to the other end. -/
theorem send (h : Linked x y) (ht : x.Turn x') :
    ∃ chunk, x'.held = x.held ++ chunk ∧ Linked x' { y with arrived := y.arrived ++ chunk } := by
  have hquiet {x' : Ends} (hm : x'.maxSegment = x.maxSegment) (hh : x'.held = x.held)
      (hs : x'.started = x.started) (hw : x'.writer = x.writer ∨ x'.writer = .over) :
      ∃ chunk, x'.held = x.held ++ chunk ∧ Linked x' { y with arrived := y.arrived ++ chunk } := by
    refine ⟨[], by simp [hh], hm.trans h.maxSegment, by simp [hh, h.held], hs ▸ h.heard, fun hr => ?_⟩
    obtain ⟨sent, unsent, got, owed, hdrop, hun, hfit, hwire, hgot, howes⟩ := h.wire hr
    refine ⟨sent, unsent, got, owed, hs ▸ hdrop, fun hne => hun ?_, hm ▸ hfit, by simpa using hwire,
      hgot, ?_⟩
    · rcases hw with hw | hw
      · rwa [hw] at hne
      · exact absurd hw hne
    · rcases hw with hw | hw
      · rwa [hw]
      · rw [hw]; trivial
  cases ht with
  | same => exact hquiet rfl rfl rfl (.inl rfl)
  | @begin out bytes hw he =>
    refine ⟨[], by simp, h.maxSegment, by simp [h.held], ?_, fun hr => ?_⟩
    · exact h.heard.trans (heardAs_append _ _ ▸ List.prefix_append _ _)
    · obtain ⟨sent, unsent, got, owed, hdrop, hun, hfit, hwire, hgot, howes⟩ := h.wire hr
      obtain rfl : unsent = [] := hun (by simp [hw])
      obtain rfl : owed = [] := by simpa [hw, WriterStage.Owes] using howes
      obtain ⟨rfl, -⟩ := Decoder.run_of_encode he []
      refine ⟨sent ++ [out], [], got, out.frame.wire, ?_, fun _ => rfl, ?_, ?_, hgot, rfl⟩
      · rw [List.drop_append_of_le_length h.length_le, hdrop]
        simp
      · intro o ho
        rcases List.mem_append.1 ho with ho | ho
        · exact hfit o ho
        · obtain rfl := List.mem_singleton.1 ho
          exact ⟨_, he⟩
      · rw [wires_append, hwire]
        simp [wires]
  | @balk out hw =>
    refine ⟨[], by simp, h.maxSegment, by simp [h.held], ?_, fun hr => ?_⟩
    · exact h.heard.trans (heardAs_append _ _ ▸ List.prefix_append _ _)
    · obtain ⟨sent, unsent, got, owed, hdrop, hun, hfit, hwire, hgot, howes⟩ := h.wire hr
      refine ⟨sent, unsent ++ [out], got, owed, ?_, fun hne => absurd rfl hne, hfit,
        by simpa using hwire, hgot, trivial⟩
      rw [List.drop_append_of_le_length h.length_le, hdrop, List.append_assoc]
  | @write chunk left hw =>
    refine ⟨chunk, rfl, h.maxSegment, by simp [h.held], h.heard, fun hr => ?_⟩
    obtain ⟨sent, unsent, got, owed, hdrop, hun, hfit, hwire, hgot, howes⟩ := h.wire hr
    obtain rfl : unsent = [] := hun (by simp [hw])
    obtain rfl : owed = chunk ++ left := by simpa [hw, WriterStage.Owes] using howes
    refine ⟨sent, [], got, left, hdrop, fun _ => rfl, hfit, by simp [hwire], hgot, ?_⟩
    dsimp only
    split
    · assumption
    · rfl
  | quit => exact hquiet rfl rfl rfl (.inr rfl)
  | start => exact hquiet rfl rfl rfl (.inl rfl)
  | take => exact hquiet rfl rfl rfl (.inl rfl)
  | gather => exact hquiet rfl rfl rfl (.inl rfl)
  | fault => exact hquiet rfl rfl rfl (.inl rfl)
  | pass => exact hquiet rfl rfl rfl (.inl rfl)
  | leave => exact hquiet rfl rfl rfl (.inl rfl)

/-! ### The receiving end -/

theorem exists_of_run_frame {maxSegment : Nat} {d : Decoder} {bytes rest : Bytes} {f : Frame}
    (h : d.run maxSegment bytes = .frame f rest) : ∃ taken, bytes = taken ++ rest := by
  induction bytes generalizing d with
  | nil => cases h
  | cons b bytes ih =>
    rw [Decoder.run] at h
    split at h
    · obtain ⟨taken, rfl⟩ := ih h
      exact ⟨b :: taken, rfl⟩
    · cases h; exact ⟨[b], rfl⟩
    · cases h

theorem exists_of_run_error {maxSegment : Nat} {d : Decoder} {bytes rest : Bytes} {cause : FrameError}
    (h : d.run maxSegment bytes = .error cause rest) : ∃ taken, bytes = taken ++ rest := by
  induction bytes generalizing d with
  | nil => cases h
  | cons b bytes ih =>
    rw [Decoder.run] at h
    split at h
    · obtain ⟨taken, rfl⟩ := ih h
      exact ⟨b :: taken, rfl⟩
    · cases h
    · cases h; exact ⟨[b], rfl⟩

/-- The frame that the reader takes is the first of those under way. -/
theorem take (h : Linked x y) {d : Decoder} {f : Frame} {rest : Bytes} {reader : ReaderStage}
    (hr : y.reader = .reading d) (hd : d.run y.maxSegment y.arrived = .frame f rest)
    (hreader : reader = .between ∨ ∃ payload, reader = .handing payload) :
    Linked { x with held := rest }
      { y with arrived := rest, reader, dispatched := y.dispatched ++ [f] } := by
  obtain ⟨sent, unsent, got, owed, hdrop, hun, hfit, hwire, hgot, howes⟩ := h.wire (by simp [hr])
  rw [hr] at hgot
  have hrun : Decoder.run y.maxSegment .start (wires sent) = .frame f (rest ++ owed) := by
    rw [hwire, List.append_assoc, hgot.run, Decoder.run_append, hd]
  rcases sent with _ | ⟨out, sent⟩
  · cases hrun
  · obtain ⟨bytes, he⟩ := hfit out List.mem_cons_self
    rw [← h.maxSegment, run_wires_cons he] at hrun
    obtain ⟨rfl, hrest⟩ := Decoder.Reading.frame.inj hrun
    have hat : x.started[y.dispatched.length]? = some out := by
      rw [← List.head?_drop, hdrop]
      rfl
    refine ⟨h.maxSegment, rfl, ?_, fun _ => ⟨sent, unsent, [], owed, ?_, hun, fun o ho =>
      hfit o (List.mem_cons_of_mem _ ho), by simpa using hrest, ?_, howes⟩⟩
    · obtain ⟨more, hmore⟩ := h.heard
      have : (heardAs x.started)[y.dispatched.length]? = some out.frame.normal := by
        rw [heardAs, List.getElem?_map, hat]
        rfl
      rw [← hmore, List.getElem?_append_right (Nat.le_refl _), Nat.sub_self] at this
      rcases more with _ | ⟨g, more⟩
      · cases this
      · obtain rfl : g = out.frame.normal := by simpa using this
        exact ⟨more, by rw [← hmore]; simp⟩
    · rw [List.length_append, List.length_singleton, ← List.drop_drop, hdrop]
      rfl
    · rcases hreader with rfl | ⟨payload, rfl⟩ <;> rfl

/-- A turn at the receiving end, with the room that it made told to the other end. -/
theorem receive (h : Linked x y) (ht : y.Turn y') :
    ∃ taken, y.arrived = taken ++ y'.arrived ∧ Linked { x with held := y'.arrived } y' := by
  have hheld : { x with held := y.arrived } = x := by rw [← h.held]
  have hover {rest : Bytes} (ha : ∃ taken, y.arrived = taken ++ rest) :
      ∃ taken, y.arrived = taken ++ rest ∧
        Linked { x with held := rest } { y with arrived := rest, reader := .over } := by
    obtain ⟨taken, ha⟩ := ha
    exact ⟨taken, ha, h.maxSegment, rfl, h.heard, fun hne => absurd rfl hne⟩
  have hquiet {y' : Ends} (hm : y'.maxSegment = y.maxSegment) (ha : y'.arrived = y.arrived)
      (hdis : y'.dispatched = y.dispatched)
      (hr : y'.reader ≠ .over → y.reader ≠ .over ∧
        ∀ got, y.reader.Holds y.maxSegment got → y'.reader.Holds y'.maxSegment got) :
      ∃ taken, y.arrived = taken ++ y'.arrived ∧ Linked { x with held := y'.arrived } y' := by
    refine ⟨[], by simp [ha], h.maxSegment.trans hm.symm, rfl, hdis ▸ h.heard, fun hne => ?_⟩
    obtain ⟨hne, hholds⟩ := hr hne
    obtain ⟨sent, unsent, got, owed, hdrop, hun, hfit, hwire, hgot, howes⟩ := h.wire hne
    exact ⟨sent, unsent, got, owed, hdis ▸ hdrop, hun, hfit, ha ▸ hwire, hholds got hgot, howes⟩
  cases ht with
  | same => exact hquiet rfl rfl rfl fun hne => ⟨hne, fun _ hg => hg⟩
  | begin => exact hquiet rfl rfl rfl fun hne => ⟨hne, fun _ hg => hg⟩
  | balk => exact hquiet rfl rfl rfl fun hne => ⟨hne, fun _ hg => hg⟩
  | write => exact hquiet rfl rfl rfl fun hne => ⟨hne, fun _ hg => hg⟩
  | quit => exact hquiet rfl rfl rfl fun hne => ⟨hne, fun _ hg => hg⟩
  | start hr =>
    refine hquiet rfl rfl rfl fun _ => ⟨by simp [hr], fun got hg => ?_⟩
    rw [hr] at hg
    obtain rfl : got = [] := hg
    rfl
  | take hr hd hreader =>
    obtain ⟨taken, ha⟩ := exists_of_run_frame hd
    exact ⟨taken, ha, h.take hr hd hreader⟩
  | @gather d d' reader hr hd hreader =>
    rcases hreader with rfl | rfl
    · refine ⟨y.arrived, by simp, h.maxSegment, rfl, h.heard, fun _ => ?_⟩
      obtain ⟨sent, unsent, got, owed, hdrop, hun, hfit, hwire, hgot, howes⟩ := h.wire (by simp [hr])
      refine ⟨sent, unsent, got ++ y.arrived, owed, hdrop, hun, hfit, by simpa using hwire, ?_, howes⟩
      rw [hr] at hgot
      exact (hgot.run y.arrived).trans hd
    · exact hover ⟨y.arrived, by simp⟩
  | fault hr hd => exact hover (exists_of_run_error hd)
  | pass hr =>
    refine hquiet rfl rfl rfl fun _ => ⟨by simp [hr], fun got hg => ?_⟩
    rw [hr] at hg
    exact hg
  | leave => exact hover ⟨[], rfl⟩

end Linked

namespace Pair

/-! ### Runs of a pair -/

/-- Both directions of the link. -/
def LinkedBoth (p : Pair) : Prop := ∀ side, Linked (p.side side).ends (p.side side.other).ends

theorem ends_carry (before after s : Session) :
    (carry before after s).ends = { s.ends with
      held := s.ends.held.drop (before.inlet.bytes.length - after.inlet.bytes.length)
      arrived := s.ends.arrived ++ after.outlet.held.drop before.outlet.held.length } := by
  have hif (c : Prop) [Decidable c] (t u : Session) (h : t.ends = u.ends) :
      (if c then t else u).ends = u.ends := by
    split
    · exact h
    · rfl
  unfold carry
  dsimp only
  rw [hif _ _ _ (Session.ends_breakOutput _), hif _ _ _ (Session.ends_endInput _ _)]
  split
  · rename_i hwritten
    split
    · rename_i hread
      simp [hread, hwritten]
    · rw [Session.ends_takeOutput, hwritten]
      simp
  · split
    · rename_i hread
      rw [Session.ends_deliver, hread]
      simp
    · rw [Session.ends_deliver, Session.ends_takeOutput]

theorem side_setSide (side : Side) (s : Session) (p : Pair) : (p.setSide side s).side side = s := by
  cases side <;> rfl

theorem side_other_setSide (side : Side) (s : Session) (p : Pair) :
    (p.setSide side s).side side.other = p.side side.other := by
  cases side <;> rfl

theorem other_other (side : Side) : side.other.other = side := by cases side <;> rfl

/-- Each side is the one or the other. -/
theorem eq_or_eq_other (side a : Side) : a = side ∨ a = side.other := by
  cases side <;> cases a <;> simp [Side.other]

theorem LinkedBoth.setSide {p : Pair} (h : p.LinkedBoth) {side : Side} {s : Session}
    (hs : s.ends = (p.side side).ends) : (p.setSide side s).LinkedBoth := by
  have hends (a : Side) : ((p.setSide side s).side a).ends = (p.side a).ends := by
    rcases eq_or_eq_other side a with rfl | rfl
    · rw [side_setSide, hs]
    · rw [side_other_setSide]
  intro a
  rw [hends, hends]
  exact h a

theorem side_takeTurn (side : Side) (fiber : Fiber) (first : Bool) (p : Pair) :
    (p.takeTurn side fiber first).1.side side = ((p.side side).takeTurn fiber first).1 := by
  cases side <;> rfl

theorem side_other_takeTurn (side : Side) (fiber : Fiber) (first : Bool) (p : Pair) :
    (p.takeTurn side fiber first).1.side side.other =
      carry (p.side side) ((p.side side).takeTurn fiber first).1 (p.side side.other) := by
  cases side <;> rfl

theorem LinkedBoth.takeTurn {p : Pair} (h : p.LinkedBoth) (side : Side) (fiber : Fiber) (first : Bool) :
    (p.takeTurn side fiber first).1.LinkedBoth := by
  have hturn := (p.side side).turn_takeTurn fiber first
  have hsend := (h side).send hturn
  have hreceive := (other_other side ▸ h side.other : Linked _ _).receive hturn
  obtain ⟨chunk, hchunk, hsend⟩ := hsend
  obtain ⟨taken, htaken, hreceive⟩ := hreceive
  have hheld := (other_other side ▸ h side.other : Linked _ _).held
  have hcarry := ends_carry (p.side side) ((p.side side).takeTurn fiber first).1 (p.side side.other)
  have hwritten : ((p.side side).takeTurn fiber first).1.outlet.held.drop
      (p.side side).outlet.held.length = chunk := by
    have : ((p.side side).takeTurn fiber first).1.outlet.held =
      (p.side side).outlet.held ++ chunk := hchunk
    rw [this, List.drop_left]
  have hread : (p.side side.other).ends.held.drop ((p.side side).inlet.bytes.length -
      ((p.side side).takeTurn fiber first).1.inlet.bytes.length) =
      ((p.side side).takeTurn fiber first).1.ends.arrived := by
    have htaken' : (p.side side).inlet.bytes =
      taken ++ ((p.side side).takeTurn fiber first).1.inlet.bytes := htaken
    rw [hheld, htaken, htaken', List.length_append, Nat.add_sub_cancel_right, List.drop_left]
  rw [hwritten, hread] at hcarry
  intro a
  rcases eq_or_eq_other side a with rfl | rfl
  · rw [side_takeTurn, side_other_takeTurn, hcarry]
    exact ⟨hsend.maxSegment, hsend.held, hsend.heard, hsend.wire⟩
  · rw [other_other, side_takeTurn, side_other_takeTurn, hcarry]
    exact ⟨hreceive.maxSegment, hreceive.held, hreceive.heard, hreceive.wire⟩

theorem LinkedBoth.move {p p' : Pair} (h : p.LinkedBoth) {m : PairMove} (hm : p.move? m = some p') :
    p'.LinkedBoth := by
  cases m with
  | onSide side m =>
    simp only [move?] at hm
    split at hm
    · rename_i hown
      obtain ⟨s, hs, rfl⟩ := Option.map_eq_some_iff.1 hm
      exact h.setSide (Session.ends_of_own hown hs)
    · cases hm
  | advance span =>
    cases hm
    intro a
    cases a
    · exact h .left
    · exact h .right
  | run side fiber first =>
    simp only [move?] at hm
    split at hm
    · cases hm
      have hturn := h.takeTurn side fiber first
      unfold run
      rcases hq : p.takeTurn side fiber first with ⟨q, goesOn⟩
      rw [hq] at hturn
      cases goesOn
      · exact hturn
      · exact LinkedBoth.setSide hturn rfl
    · cases hm

end Pair

end StreamMux
