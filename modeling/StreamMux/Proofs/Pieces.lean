import StreamMux.Proofs.Lossless
import StreamMux.Proofs.Sound
import StreamMux.Proofs.Supply

/-! Bytes that come in piece by piece. Wherever the stream is cut, the reader acts on the frames that reading
the whole of it at one go gives, each once it is complete, and comes to the same end: it waits for the rest of
a frame, or finds the stream at its end, or a fault. -/

namespace StreamMux

/-! ### Reading at one go -/

namespace Decoder

variable {maxSegment : Nat}

/-- What reading a frame comes to, and the bytes it leaves. A frame that stays short uses all bytes up. -/
def Reading.result : Reading → Except FrameError Frame × Bytes
  | .short _ => (.error (.link .endOfStream), [])
  | .frame f rest => (.ok f, rest)
  | .error cause rest => (.error cause, rest)

theorem read_eq (bytes : Bytes) : Frame.read maxSegment bytes = (start.run maxSegment bytes).result := by
  unfold Frame.read
  split <;> rename_i h <;> rw [h] <;> rfl

/-- A fault shows with one byte; those behind it are left. -/
theorem exists_step_of_run_error {d : Decoder} {bytes rest : Bytes} {cause : FrameError}
    (h : d.run maxSegment bytes = .error cause rest) :
    ∃ before b d', bytes = before ++ b :: rest ∧ step maxSegment b d' = .error cause := by
  induction bytes generalizing d with
  | nil => cases h
  | cons b bytes ih =>
    rw [run_cons] at h
    cases hstep : d.step maxSegment b with
    | more d' =>
      rw [hstep] at h
      obtain ⟨before, b', d'', rfl, hfault⟩ := ih h
      exact ⟨b :: before, b', d'', rfl, hfault⟩
    | frame f =>
      rw [hstep] at h
      cases h
    | error _ =>
      rw [hstep] at h
      cases h
      exact ⟨[], b, d, rfl, hstep⟩

/-- A fault is one of the bytes, not of the link. -/
theorem ne_link_of_step_error {d : Decoder} {b : UInt8} {cause : FrameError}
    (h : d.step maxSegment b = .error cause) (why : LinkError) : cause ≠ .link why := by
  cases d with
  | start =>
    simp only [step] at h
    split at h <;> cases h
    simp
  | inId flag got =>
    simp only [step, afterId] at h
    split at h
    · cases h
    · split at h
      · cases h
      · split at h <;> cases h
  | inLength flag id got =>
    simp only [step, afterLength] at h
    split at h
    · cases h
    · split at h
      · cases h
        simp
      · split at h <;> cases h
  | inWindow id got =>
    simp only [step] at h
    split at h <;> cases h
  | inPayload flag id missing got =>
    simp only [step] at h
    split at h <;> cases h

/-- A frame that was read is as its bytes tell it. -/
theorem normal_of_run {bytes rest : Bytes} {f : Frame}
    (h : start.run maxSegment bytes = .frame f rest) : f.normal = f := by
  obtain ⟨hfit, rfl⟩ := wire_of_run h
  rw [run_wire rest hfit] at h
  exact (Reading.frame.inj h).1

end Decoder

namespace Frame

variable {maxSegment : Nat}

theorem readMany_add (count more : Nat) (bytes : Bytes) :
    readMany maxSegment (count + more) bytes =
      ((readMany maxSegment count bytes).1 ++ (readMany maxSegment more (readMany maxSegment count bytes).2).1,
        (readMany maxSegment more (readMany maxSegment count bytes).2).2) := by
  induction count generalizing bytes with
  | zero => rw [Nat.zero_add]; rfl
  | succ count ih =>
    rw [Nat.succ_add]
    simp only [readMany, ih, List.cons_append]

/-- Where reading first fails, the frames before the fault are those of the bytes. -/
theorem eq_of_readMany_fails {frames frames' : List Frame} {cause cause' : FrameError}
    {bytes left left' : Bytes}
    (h : readMany maxSegment (frames.length + 1) bytes = (frames.map .ok ++ [.error cause], left))
    (h' : readMany maxSegment (frames'.length + 1) bytes = (frames'.map .ok ++ [.error cause'], left')) :
    frames = frames' ∧ cause = cause' := by
  simp only [readMany] at h h'
  induction frames generalizing frames' bytes with
  | nil => cases frames' <;> simp_all [readMany]
  | cons f frames ih =>
    cases frames' with
    | nil => simp_all [readMany]
    | cons f' frames' =>
      simp only [readMany, List.length_cons, List.map_cons, List.cons_append, Prod.mk.injEq, List.cons.injEq]
        at h h'
      obtain ⟨⟨hf, hmore⟩, hleft⟩ := h
      obtain ⟨⟨hf', hmore'⟩, hleft'⟩ := h'
      obtain rfl := Except.ok.inj (hf.symm.trans hf')
      obtain ⟨rfl, rfl⟩ := ih (Prod.ext hmore hleft) (Prod.ext hmore' hleft')
      exact ⟨rfl, rfl⟩

end Frame

/-! ### Where the reader stands -/

namespace ReaderStage

/-- What has arrived of the frame that the reader is at. -/
def decoder : ReaderStage → Decoder
  | .reading d => d
  | _ => .start

/-- How far the reader is from waiting for bytes. -/
def rank : ReaderStage → Nat
  | .over => 0
  | .reading _ => 1
  | .between => 2
  | .handing _ => 6

end ReaderStage

namespace Supply

/-- The bytes that came in are those of the frames acted on, a part that is taken, and those not taken yet. The
part is what the decoder holds. -/
structure InStep (x : Supply) (part : Bytes) : Prop where
  whole : ∀ f ∈ x.dispatched, f.Fits x.settings.maxSegment ∧ f.normal = f
  cut : x.received = x.dispatched.flatMap Frame.wire ++ part ++ x.inlet.bytes
  held : x.reader ≠ .over → Decoder.start.run x.settings.maxSegment part = .short x.reader.decoder

/-- The reader is over, at a fault or at the end of the stream. -/
inductive Through (x : Supply) (part : Bytes) : Prop
  | fault (cause : FrameError) (stage : x.reader = .over)
      (run : Decoder.start.run x.settings.maxSegment (part ++ x.inlet.bytes) = .error cause x.inlet.bytes) :
      Through x part
  | ended {d : Decoder} (stage : x.reader = .over)
      (run : Decoder.start.run x.settings.maxSegment part = .short d) (last : x.inlet.bytes = [])
      (ending : x.inlet.ending.isSome = true) : Through x part

/-- Bytes are read on from where the decoder stands. -/
theorem InStep.resume {x : Supply} {part : Bytes} (h : x.InStep part) {d : Decoder} (stage : x.reader = .reading d)
    (bytes : Bytes) :
    Decoder.start.run x.settings.maxSegment (part ++ bytes) = d.run x.settings.maxSegment bytes := by
  have hheld := h.held (by simp [stage])
  rw [stage] at hheld
  rw [Decoder.run_append, hheld]
  rfl

theorem InStep.readMany {x : Supply} {part : Bytes} (h : x.InStep part) :
    Frame.readMany x.settings.maxSegment x.dispatched.length x.received =
      (x.dispatched.map .ok, part ++ x.inlet.bytes) := by
  have hnormal : x.dispatched.map (fun f => (.ok f.normal : Except FrameError Frame)) = x.dispatched.map .ok :=
    List.map_congr_left fun f hf => congrArg _ (h.whole f hf).2
  rw [h.cut, List.append_assoc, Frame.readMany_wires fun f hf => (h.whole f hf).1, hnormal]

/-- Behind the frames that were acted on, reading at one go gives what the part and the bytes not taken give. -/
theorem InStep.readMany_next {x : Supply} {part : Bytes} (h : x.InStep part) :
    Frame.readMany x.settings.maxSegment (x.dispatched.length + 1) x.received =
      (x.dispatched.map .ok ++ [(Decoder.start.run x.settings.maxSegment (part ++ x.inlet.bytes)).result.1],
        (Decoder.start.run x.settings.maxSegment (part ++ x.inlet.bytes)).result.2) := by
  rw [Frame.readMany_add, h.readMany, ← Decoder.read_eq]
  rfl

/-- The reader need not wait. -/
def CanRead (x : Supply) : Prop :=
  match x.reader with
  | .between => True
  | .reading _ => x.inlet.bytes ≠ [] ∨ x.inlet.ending.isSome = true
  | .handing _ => x.pongs.length < x.settings.pongRoom
  | .over => False

/-- What is left to do with what came in. Each byte counts for all turns that a whole frame takes. -/
def work (x : Supply) : Nat := 8 * x.inlet.bytes.length + x.reader.rank + 3 * x.pongs.length

end Supply

namespace Session

variable {s t u : Session} {m : Move} {part : Bytes} {goesOn : Bool}

/-- A turn of the reader leaves it in step; where it ends the session, the reader is through. -/
theorem exists_inStep_of_readerFeeds (h : s.supply.InStep part) (hf : ReaderFeeds s t goesOn) :
    ∃ part', t.supply.InStep part' ∧ (s.closed = false → t.closed = true → t.supply.Through part') := by
  have hheld : s.reader ≠ .over →
      Decoder.start.run s.settings.maxSegment part = .short s.reader.decoder := h.held
  have hcut : s.received = s.dispatched.flatMap Frame.wire ++ part ++ s.inlet.bytes := h.cut
  have hresume {d : Decoder} (stage : s.reader = .reading d) (bytes : Bytes) :
      Decoder.start.run s.settings.maxSegment (part ++ bytes) = d.run s.settings.maxSegment bytes :=
    h.resume stage bytes
  have hended {p : Prop} (ended : s.closed = true) (hopen : s.closed = false) : p := by
    rw [ended] at hopen
    cases hopen
  have hstays {p : Prop} (closed : t.closed = s.closed) (hopen : s.closed = false) (hc : t.closed = true) : p :=
    hended (closed ▸ hc) hopen
  cases hf with
  | stays why same => exact ⟨part, same ▸ h, hstays (same ▸ rfl)⟩
  | leaves ended ready supply =>
    rw [supply]
    exact ⟨part, ⟨h.whole, hcut, fun hne => absurd rfl hne⟩, fun hopen _ => hended ended hopen⟩
  | drops ended stage supply =>
    rw [stage] at hheld
    rw [supply]
    exact ⟨part, ⟨h.whole, hcut, fun _ => hheld (by simp)⟩, fun hopen _ => hended ended hopen⟩
  | starts running stage closed ready supply =>
    rw [stage] at hheld
    rw [supply]
    exact ⟨part, ⟨h.whole, hcut, fun _ => hheld (by simp)⟩, hstays closed⟩
  | @takes d f rest reader stage run next closed ready supply =>
    rw [← hresume stage] at run
    obtain ⟨hfit, hwire⟩ := Decoder.wire_of_run run
    rw [supply]
    refine ⟨[], ⟨fun g hg => ?_, ?_, fun _ => ?_⟩, hstays closed⟩
    · rcases List.mem_append.1 hg with hg | hg
      · exact h.whole g hg
      · cases List.mem_singleton.1 hg
        exact ⟨hfit, Decoder.normal_of_run run⟩
    · simp [Session.supply, hcut, hwire]
    · rcases next with rfl | ⟨payload, rfl⟩ <;> rfl
  | @faults d cause rest stage run ended supply =>
    obtain ⟨before, b, -, hbytes, -⟩ := Decoder.exists_step_of_run_error run
    have hfront : part ++ (before ++ [b]) ++ rest = part ++ s.inlet.bytes := by simp [hbytes]
    rw [supply]
    refine ⟨part ++ (before ++ [b]), ⟨h.whole, ?_, fun hne => absurd rfl hne⟩,
      fun _ _ => .fault cause rfl ?_⟩
    · simp only [Session.supply, List.append_assoc] at hcut hfront ⊢
      rw [hcut, hfront]
    · exact (congrArg _ hfront).trans ((hresume stage _).trans run)
  | ends stage run why ended supply =>
    rw [supply]
    refine ⟨part ++ s.inlet.bytes, ⟨h.whole, ?_, fun hne => absurd rfl hne⟩, fun hopen _ =>
      .ended rfl ((hresume stage _).trans run) rfl (why.resolve_left fun ended => hended ended hopen)⟩
    simp [Session.supply, hcut]
  | waits stage run running more closed ready supply =>
    rw [supply]
    refine ⟨part ++ s.inlet.bytes, ⟨h.whole, ?_, fun _ => (hresume stage _).trans run⟩, hstays closed⟩
    simp [Session.supply, hcut]
  | hands stage room closed ready wakes supply =>
    rw [stage] at hheld
    rw [supply]
    exact ⟨part, ⟨h.whole, hcut, fun _ => hheld (by simp)⟩, hstays closed⟩

/-- The loop of the returned pings changes only those. -/
theorem exists_supply_of_returnsFeeds (hf : ReturnsFeeds s t goesOn) :
    ∃ pongs returns, t.supply = { s.supply with pongs, returns } := by
  cases hf with
  | stays why same => exact ⟨s.pongs, s.returns, congrArg Session.supply same⟩
  | leaves ended ready supply => exact ⟨_, _, supply⟩
  | handles queue closed ready wakes supply => exact ⟨_, _, supply⟩

/-- A reader that is over does nothing. -/
theorem supply_of_over (hf : ReaderFeeds s t goesOn) (hover : s.reader = .over) : t.supply = s.supply := by
  have hnever {p : Prop} {reader : ReaderStage} (stage : s.reader = reader) (hne : ReaderStage.over ≠ reader) :
      p := absurd (hover.symm.trans stage) hne
  cases hf with
  | stays why same => rw [same]
  | leaves ended ready supply =>
    rw [supply]
    exact congrArg (fun reader => { s.supply with reader }) hover.symm
  | drops ended stage supply => exact hnever stage (by simp)
  | starts running stage closed ready supply => exact hnever stage (by simp)
  | takes stage run next closed ready supply => exact hnever stage (by simp)
  | faults stage run ended supply => exact hnever stage (by simp)
  | ends stage run why ended supply => exact hnever stage (by simp)
  | waits stage run running more closed ready supply => exact hnever stage (by simp)
  | hands stage room closed ready wakes supply => exact hnever stage (by simp)

theorem supply_next {fiber : Fiber} (next : t = if goesOn then u.goOn fiber else u) : t.supply = u.supply := by
  rw [next]
  split <;> rfl

theorem inStep_of_arrives (h : s.supply.InStep part) {bytes : Bytes} (supply : t.supply = { s.supply with
    inlet := { s.inlet with bytes := s.inlet.bytes ++ bytes }, received := s.received ++ bytes }) :
    t.supply.InStep part := by
  have hcut : s.received = s.dispatched.flatMap Frame.wire ++ part ++ s.inlet.bytes := h.cut
  rw [supply]
  refine ⟨h.whole, ?_, h.held⟩
  simp [Session.supply, hcut]

/-- A move leaves the reader in step; where the reader ends the session by it, it is through. -/
theorem exists_inStep_of_feeds (h : s.supply.InStep part) (hf : s.Feeds t m) :
    ∃ part', t.supply.InStep part' ∧
      (s.closed = false → t.closed = true → (∃ first, m = .run .reader first) → t.supply.Through part') := by
  cases hf with
  | apart others supply ready =>
    exact ⟨part, supply ▸ h, fun _ _ ⟨first, hm⟩ => absurd hm (others first).1⟩
  | arrives bytes closed ready wakes supply => exact ⟨part, inStep_of_arrives h supply, fun _ _ hm => by simp at hm⟩
  | stops ending closed ready wakes supply =>
    rw [supply]
    exact ⟨part, ⟨h.whole, h.cut, h.held⟩, fun _ _ hm => by simp at hm⟩
  | @reads first goesOn u turn next =>
    obtain ⟨part', h', hthrough⟩ :=
      exists_inStep_of_readerFeeds (s := { s with ready := s.ready.erase .reader }) h turn
    have hended : t.closed = u.closed := by
      rw [next]
      split <;> rfl
    rw [supply_next next, hended]
    exact ⟨part', h', fun hopen hclosed _ => hthrough hopen hclosed⟩
  | @returns first goesOn u turn next =>
    obtain ⟨pongs, returns, supply⟩ := exists_supply_of_returnsFeeds turn
    have hsupply : t.supply = { s.supply with pongs, returns } := (supply_next next).trans supply
    rw [hsupply]
    exact ⟨part, ⟨h.whole, h.cut, h.held⟩, fun _ _ hm => by simp at hm⟩

/-- A reader that is through stays so, unless bytes come in behind the end of the stream. -/
theorem through_of_feeds (h : s.supply.InStep part) (hthrough : s.supply.Through part) (hf : s.Feeds t m)
    (hlast : ∀ bytes, m = .deliver bytes → s.inlet.ending.isSome = false) :
    t.supply.InStep part ∧ t.supply.Through part := by
  cases hf with
  | apart others supply ready => exact ⟨supply ▸ h, supply ▸ hthrough⟩
  | arrives bytes closed ready wakes supply =>
    refine ⟨inStep_of_arrives h supply, ?_⟩
    rw [supply]
    cases hthrough with
    | fault cause stage run =>
      refine .fault cause stage ?_
      have hmore := Decoder.run_append s.settings.maxSegment .start (part ++ s.inlet.bytes) bytes
      have hfault : Decoder.start.run s.settings.maxSegment (part ++ s.inlet.bytes) =
        .error cause s.inlet.bytes := run
      rw [hfault, List.append_assoc] at hmore
      exact hmore
    | ended stage run last ending =>
      have hnone : s.inlet.ending.isSome = false := hlast bytes rfl
      rw [show s.inlet.ending.isSome = true from ending] at hnone
      cases hnone
  | stops ending closed ready wakes supply =>
    rw [supply]
    refine ⟨⟨h.whole, h.cut, h.held⟩, ?_⟩
    cases hthrough with
    | fault cause stage run => exact .fault cause stage run
    | ended stage run last _ => exact .ended stage run last rfl
  | @reads first goesOn u turn next =>
    have hover : s.reader = .over := by cases hthrough <;> assumption
    have hsame := supply_of_over turn hover
    rw [show t.supply = s.supply from (supply_next next).trans hsame]
    exact ⟨h, hthrough⟩
  | @returns first goesOn u turn next =>
    obtain ⟨pongs, returns, supply⟩ := exists_supply_of_returnsFeeds turn
    have hsupply : t.supply = { s.supply with pongs, returns } := (supply_next next).trans supply
    rw [hsupply]
    refine ⟨⟨h.whole, h.cut, h.held⟩, ?_⟩
    cases hthrough with
    | fault cause stage run => exact .fault cause stage run
    | ended stage run last ending => exact .ended stage run last ending

/-! ### Neither loop is left asleep -/

/-- In an open session neither loop is over, and each is ready if it need not wait. -/
structure Alert (s : Session) : Prop where
  goes : s.supply.reader ≠ .over ∧ s.supply.returns ≠ .over
  reader : s.supply.CanRead → .reader ∈ s.ready
  returns : s.supply.pongs ≠ [] → .returns ∈ s.ready

theorem Alert.readerFeeds (h : s.Alert) (hopen : s.closed = false) (hclosed : t.closed = false)
    (hf : ReaderFeeds { s with ready := s.ready.erase .reader } t goesOn) :
    (if goesOn then t.goOn .reader else t).Alert := by
  have hreturns (hp : s.pongs ≠ []) : .returns ∈ s.ready.erase .reader :=
    (List.mem_erase_of_ne (by decide)).2 (h.returns hp)
  have hrunning : ¬ s.closed = true := by rw [hopen]; exact Bool.false_ne_true
  have hends : ¬ t.closed = true := by rw [hclosed]; exact Bool.false_ne_true
  have hgoes {u : Session} (hreader : u.supply.reader ≠ .over) (hsame : u.supply.returns = s.supply.returns)
      (hready : u.supply.pongs ≠ [] → .returns ∈ u.ready) : (u.goOn .reader).Alert :=
    ⟨⟨hreader, hsame ▸ h.goes.2⟩, fun _ => List.mem_cons_self ..,
      fun hp => List.mem_cons_of_mem _ (hready hp)⟩
  cases hf with
  | stays why same =>
    rw [if_neg Bool.false_ne_true, same]
    refine ⟨h.goes, fun hc => ?_, hreturns⟩
    rcases why with hover | ⟨payload, stage, hfull⟩
    · exact absurd hover h.goes.1
    · have hroom : s.supply.CanRead := hc
      simp only [Supply.CanRead, supply] at hroom
      rw [show s.reader = .handing payload from stage] at hroom
      exact absurd hroom (Nat.not_lt.2 hfull)
  | leaves ended ready supply => exact absurd ended hrunning
  | drops ended stage supply => exact absurd ended hrunning
  | starts running stage closed ready supply =>
    refine hgoes ?_ ?_ fun hp => ready (hreturns ?_)
    · rw [supply]
      simp
    · rw [supply]
      rfl
    · rwa [supply] at hp
  | takes stage run next closed ready supply =>
    refine hgoes ?_ ?_ fun hp => ready (hreturns ?_)
    · rw [supply]
      rcases next with rfl | ⟨payload, rfl⟩ <;> simp
    · rw [supply]
      rfl
    · rwa [supply] at hp
  | faults stage run ended supply => exact absurd ended hends
  | ends stage run why ended supply => exact absurd ended hends
  | waits stage run running more closed ready supply =>
    rw [if_neg Bool.false_ne_true]
    refine ⟨?_, fun hc => ?_, fun hp => ?_⟩
    · rw [supply]
      exact ⟨by simp, h.goes.2⟩
    · rw [supply] at hc
      rcases hc with hbytes | hending
      · exact absurd rfl hbytes
      · rw [show s.inlet.ending = none from more] at hending
        cases hending
    · rw [supply] at hp
      exact ready ▸ hreturns hp
  | hands stage room closed ready wakes supply =>
    refine hgoes ?_ ?_ fun _ => wakes
    · rw [supply]
      simp
    · rw [supply]
      rfl

theorem Alert.returnsFeeds (h : s.Alert) (hopen : s.closed = false)
    (hf : ReturnsFeeds { s with ready := s.ready.erase .returns } t goesOn) :
    (if goesOn then t.goOn .returns else t).Alert := by
  have hreader (hc : s.supply.CanRead) : .reader ∈ s.ready.erase .returns :=
    (List.mem_erase_of_ne (by decide)).2 (h.reader hc)
  cases hf with
  | stays why same =>
    rw [if_neg Bool.false_ne_true, same]
    refine ⟨h.goes, hreader, fun hp => ?_⟩
    rcases why with hover | hempty
    · exact absurd hover h.goes.2
    · exact absurd hempty hp
  | leaves ended ready supply =>
    rw [show s.closed = true from ended] at hopen
    cases hopen
  | @handles payload rest queue closed ready wakes supply =>
    rw [if_pos rfl]
    refine ⟨?_, fun hc => List.mem_cons_of_mem _ ?_, fun _ => List.mem_cons_self ..⟩
    · show t.supply.reader ≠ _ ∧ t.supply.returns ≠ _
      rw [supply]
      exact h.goes
    · replace hc : t.supply.CanRead := hc
      rw [supply] at hc
      -- of the stages only the one that waits for room may go on now and not before
      cases hstage : s.reader with
      | handing payload => exact wakes payload hstage
      | _ =>
        refine ready (hreader ?_)
        dsimp only [Supply.CanRead, Session.supply] at hc ⊢
        rw [hstage] at hc ⊢
        exact hc

/-- What arrives wakes a reader that waits for it. -/
theorem Alert.arrives (h : s.Alert) {inlet : Inlet} {received : Bytes} (ready : s.ready ⊆ t.ready)
    (wakes : ∀ d, s.reader = .reading d → .reader ∈ t.ready)
    (supply : t.supply = { s.supply with inlet, received }) : t.Alert := by
  refine ⟨?_, fun hc => ?_, fun hp => ready (h.returns ?_)⟩
  · rw [supply]
    exact h.goes
  · rw [supply] at hc
    cases hstage : s.reader with
    | reading d => exact wakes d hstage
    | _ =>
      refine ready (h.reader ?_)
      dsimp only [Supply.CanRead, Session.supply] at hc ⊢
      rw [hstage] at hc ⊢
      exact hc
  · rwa [supply] at hp

theorem Alert.feeds (h : s.Alert) (hopen : s.closed = false) (hclosed : t.closed = false) (hf : s.Feeds t m) :
    t.Alert := by
  cases hf with
  | apart others supply ready =>
    refine ⟨supply ▸ h.goes, fun hc => ready _ (.inl rfl) (h.reader ?_),
      fun hp => ready _ (.inr rfl) (h.returns ?_)⟩
    · rwa [supply] at hc
    · rwa [supply] at hp
  | arrives bytes closed ready wakes supply => exact h.arrives ready wakes supply
  | stops ending closed ready wakes supply => exact h.arrives ready wakes supply
  | @reads first goesOn u turn next =>
    have hu : u.closed = false := by
      rw [← hclosed, next]
      split <;> rfl
    exact next ▸ h.readerFeeds hopen hu turn
  | returns turn next => exact next ▸ h.returnsFeeds hopen turn

/-! ### The two loops come to rest -/

/-- The reader or the loop of the returned pings takes a turn. -/
def IntakeRuns (s t : Session) : Prop :=
  ∃ fiber first, (fiber = .reader ∨ fiber = .returns) ∧ fiber ∈ s.ready ∧ t = s.run fiber first

/-- A turn of the reader that is not idle leaves less to do. -/
theorem work_readerFeeds (hf : ReaderFeeds s t goesOn) : t.supply.work < s.supply.work ∨
    goesOn = false ∧ t.supply.work ≤ s.supply.work ∧ t.ready = s.ready := by
  have hrank (reader : ReaderStage) : ReaderStage.over.rank ≤ reader.rank := Nat.zero_le _
  cases hf with
  | stays why same => exact .inr ⟨rfl, same ▸ Nat.le_refl _, same ▸ rfl⟩
  | leaves ended ready supply =>
    refine .inr ⟨rfl, ?_, ready⟩
    rw [supply]
    have := hrank s.reader
    simp only [Supply.work, Session.supply]
    omega
  | drops ended stage supply =>
    left
    rw [supply]
    simp [Supply.work, Session.supply, stage, ReaderStage.rank]
  | starts running stage closed ready supply =>
    left
    rw [supply]
    simp [Supply.work, Session.supply, stage, ReaderStage.rank]
  | takes stage run next closed ready supply =>
    left
    have hless := Decoder.length_lt_of_run_eq_frame run
    rw [supply]
    rcases next with rfl | ⟨payload, rfl⟩ <;>
      simp only [Supply.work, Session.supply, stage, ReaderStage.rank] <;> omega
  | faults stage run ended supply =>
    left
    obtain ⟨before, b, -, hbytes, -⟩ := Decoder.exists_step_of_run_error run
    rw [supply]
    simp only [Supply.work, Session.supply, stage, ReaderStage.rank, hbytes, List.length_append, List.length_cons]
    omega
  | ends stage run why ended supply =>
    left
    rw [supply]
    simp only [Supply.work, Session.supply, stage, ReaderStage.rank, List.length_nil]
    omega
  | waits stage run running more closed ready supply =>
    refine .inr ⟨rfl, ?_, ready⟩
    rw [supply]
    simp only [Supply.work, Session.supply, stage, ReaderStage.rank, List.length_nil]
    omega
  | hands stage room closed ready wakes supply =>
    left
    rw [supply]
    simp only [Supply.work, Session.supply, stage, ReaderStage.rank, List.length_append, List.length_singleton]
    omega

theorem work_returnsFeeds (hf : ReturnsFeeds s t goesOn) : t.supply.work < s.supply.work ∨
    goesOn = false ∧ t.supply.work ≤ s.supply.work ∧ t.ready = s.ready := by
  cases hf with
  | stays why same => exact .inr ⟨rfl, same ▸ Nat.le_refl _, same ▸ rfl⟩
  | leaves ended ready supply => exact .inr ⟨rfl, by rw [supply]; exact Nat.le_refl _, ready⟩
  | handles queue closed ready wakes supply =>
    left
    rw [supply]
    simp only [Supply.work, Session.supply, queue, List.length_cons]
    omega

theorem lex_of_intakeRuns (h : s.IntakeRuns t) :
    Prod.Lex (· < ·) (· < ·) (t.supply.work, t.ready.length) (s.supply.work, s.ready.length) := by
  obtain ⟨fiber, first, hfiber, hready, rfl⟩ := h
  have hshort : (s.ready.erase fiber).length < s.ready.length := by
    have := List.length_pos_of_mem hready
    rw [List.length_erase_of_mem hready]
    omega
  have hlex {u : Session} {goesOn : Bool} (hu : u.supply.work < s.supply.work ∨
      goesOn = false ∧ u.supply.work ≤ s.supply.work ∧ u.ready = s.ready.erase fiber)
      (next : s.run fiber first = if goesOn then u.goOn fiber else u) :
      Prod.Lex (· < ·) (· < ·) ((s.run fiber first).supply.work, (s.run fiber first).ready.length)
        (s.supply.work, s.ready.length) := by
    rw [next]
    rcases hu with hless | ⟨rfl, hle, hrest⟩
    · refine .left _ _ ?_
      split <;> exact hless
    · rw [if_neg Bool.false_ne_true, hrest]
      rcases Nat.lt_or_eq_of_le hle with hless | hsame
      · exact .left _ _ hless
      · rw [hsame]
        exact .right _ hshort
  have hf := feeds_move (s := s) (m := .run fiber first) (if_pos hready)
  rcases hfiber with rfl | rfl
  · cases hf with
    | apart others supply ready => exact absurd rfl (others first).1
    | reads turn next => exact hlex (work_readerFeeds turn) next
  · cases hf with
    | apart others supply ready => exact absurd rfl (others first).2
    | returns turn next => exact hlex (work_returnsFeeds turn) next

theorem not_intakeRuns_forever {f : Nat → Session} (hstep : ∀ i, (f i).IntakeRuns (f (i + 1))) : False :=
  (wellFounded_iff_isEmpty_descending_chain.1 (Prod.lex Nat.lt_wfRel Nat.lt_wfRel).wf).false
    ⟨fun i => ((f i).supply.work, (f i).ready.length), fun i => lex_of_intakeRuns (hstep i)⟩

/-! ### Only what came in ends the session -/

/-- The move ends the session, other than by what the reader found; or bytes come in behind the end. -/
def diverts (m : Move) (s t : Session) : Bool :=
  match m with
  | .run .reader _ => false
  | .deliver _ => s.inlet.ending.isSome
  | _ => !s.closed && t.closed

/-- A state that a run from `init` leads to in which the session was not ended but by what the reader found. -/
inductive Undiverted (init : Session) : Session → Prop
  | refl : Undiverted init init
  | move {s t : Session} (m : Move) : Undiverted init s → s.move? m = some t → diverts m s t = false →
      Undiverted init t

theorem Undiverted.reachable {init : Session} (h : Undiverted init s) : Reachable init s := by
  induction h with
  | refl => exact .refl
  | move m _ hm _ ih => exact ih.move m hm

section Runs

variable {settings : Settings} {kind : LinkKind} {address : Option String} {capacity : Option Nat}
  {wall : Stamp}

theorem Reachable.exists_inStep (h : Reachable (start settings kind address capacity wall) s) :
    ∃ part, s.supply.InStep part := by
  induction h with
  | refl => exact ⟨[], fun f hf => absurd hf List.not_mem_nil, rfl, fun _ => rfl⟩
  | move m _ hm ih =>
    obtain ⟨part, h⟩ := ih
    exact (exists_inStep_of_feeds h (feeds_move hm)).imp fun _ h => h.1

theorem Reachable.alert (h : Reachable (start settings kind address capacity wall) s)
    (hopen : s.closed = false) : s.Alert := by
  induction h with
  | refl => exact ⟨⟨by simp [supply, start], by simp [supply, start]⟩, fun _ => .tail _ (.head _), fun hp => absurd rfl hp⟩
  | @move s t m h hm ih =>
    have hwas := running_of_move h.sound.coherent hm hopen
    exact (ih hwas).feeds hwas hopen (feeds_move hm)

theorem exists_run_of_ends (hm : s.move? m = some t) (hopen : s.closed = false) (hclosed : t.closed = true)
    (hkept : diverts m s t = false) : ∃ first, m = .run .reader first := by
  unfold diverts at hkept
  split at hkept
  · exact ⟨_, rfl⟩
  · -- bytes that come in end nothing
    cases hm
    have hsame (r : Session) : r.wakeReading.closed = r.closed := by
      unfold wakeReading
      split <;> rfl
    rw [show (s.deliver _).closed = s.closed from hsame _, hopen] at hclosed
    cases hclosed
  · simp [hopen, hclosed] at hkept

/-- Once the session has ended the reader is through. -/
theorem Undiverted.through (h : Undiverted (start settings kind address capacity wall) s)
    (hclosed : s.closed = true) : ∃ part, s.supply.InStep part ∧ s.supply.Through part := by
  induction h with
  | refl => cases hclosed
  | @move s t m h hm hkept ih =>
    cases hwas : s.closed with
    | false =>
      obtain ⟨part, hstep⟩ := h.reachable.exists_inStep
      obtain ⟨part', hstep', hthrough⟩ := exists_inStep_of_feeds hstep (feeds_move hm)
      exact ⟨part', hstep', hthrough hwas hclosed (exists_run_of_ends hm hwas hclosed hkept)⟩
    | true =>
      obtain ⟨part, hstep, hthrough⟩ := ih hwas
      refine ⟨part, through_of_feeds hstep hthrough (feeds_move hm) ?_⟩
      rintro bytes rfl
      exact hkept

/-- Neither the reader nor the loop of the returned pings is ready. -/
def AtRest (s : Session) : Prop := .reader ∉ s.ready ∧ .returns ∉ s.ready

instance (s : Session) : Decidable s.AtRest := inferInstanceAs (Decidable (_ ∧ _))

/-- What the reader came to, where reading at one go fails for this cause. -/
inductive CameTo (s : Session) (cause : FrameError) : Prop
  /-- It has taken all bytes, and waits for the rest of a frame. -/
  | waits {d : Decoder} (short : cause = .link .endOfStream) (more : s.inlet.ending = none)
      (taken : s.inlet.bytes = []) (running : s.closed = false) (reader : s.reader = .reading d) : CameTo s cause
  /-- The stream ended there. -/
  | ended (short : cause = .link .endOfStream) (last : s.inlet.ending.isSome = true) (closed : s.closed = true)
      (stage : s.reader = .over) : CameTo s cause
  /-- The bytes have a fault. -/
  | faulted (fault : ∀ why, cause ≠ .link why) (closed : s.closed = true) (stage : s.reader = .over) :
      CameTo s cause

theorem Alert.waits (h : s.Alert) (hrest : s.AtRest) :
    ∃ d, s.reader = .reading d ∧ s.inlet.bytes = [] ∧ s.inlet.ending = none := by
  have hstuck : ¬ s.supply.CanRead := fun hc => hrest.1 (h.reader hc)
  have hpongs : s.pongs = [] := by_contra fun hp => hrest.2 (h.returns hp)
  unfold Supply.CanRead supply at hstuck
  cases hstage : s.reader with
  | between => simp [hstage] at hstuck
  | handing payload => simp [hstage, hpongs, s.settings.pongRoom_pos] at hstuck
  | reading d => exact ⟨d, rfl, by simpa [hstage] using hstuck⟩
  | _ => exact absurd hstage h.goes.1

theorem Undiverted.cameTo (h : Undiverted (start settings kind address capacity wall) s) (hrest : s.AtRest) :
    ∃ cause left, Frame.readMany settings.maxSegment (s.dispatched.length + 1) s.received =
      (s.dispatched.map .ok ++ [.error cause], left) ∧ s.CameTo cause := by
  obtain rfl : s.settings = settings := h.reachable.sound.configured
  cases hclosed : s.closed with
  | false =>
    obtain ⟨part, hstep⟩ := h.reachable.exists_inStep
    obtain ⟨d, hreader, hbytes, hending⟩ := (h.reachable.alert hclosed).waits hrest
    have hnext := hstep.readMany_next
    rw [hstep.resume hreader, show s.supply.inlet.bytes = [] from hbytes, Decoder.run] at hnext
    exact ⟨_, _, hnext, .waits rfl hending hbytes hclosed hreader⟩
  | true =>
    obtain ⟨part, hstep, hthrough⟩ := h.through hclosed
    have hnext := hstep.readMany_next
    cases hthrough with
    | fault cause stage run =>
      rw [run] at hnext
      obtain ⟨-, b, d, -, hfault⟩ := Decoder.exists_step_of_run_error run
      exact ⟨_, _, hnext, .faulted (Decoder.ne_link_of_step_error hfault) hclosed stage⟩
    | ended stage run last ending =>
      rw [last, List.append_nil, run] at hnext
      exact ⟨_, _, hnext, .ended rfl ending hclosed stage⟩

theorem CameTo.same {s' : Session} {cause : FrameError} (h : s.CameTo cause) (h' : s'.CameTo cause)
    (hending : s'.inlet.ending.isSome = s.inlet.ending.isSome) : s'.closed = s.closed ∧
      (s'.reader = .over ∧ s.reader = .over ∨
        (∃ d, s.reader = .reading d) ∧ (∃ d, s'.reader = .reading d) ∧ s.inlet.bytes = [] ∧
          s'.inlet.bytes = []) := by
  cases h with
  | waits short more taken running reader =>
    cases h' with
    | waits _ _ taken' running' reader' =>
      exact ⟨running'.trans running.symm, .inr ⟨⟨_, reader⟩, ⟨_, reader'⟩, taken, taken'⟩⟩
    | ended _ last _ _ => simp [more, last] at hending
    | faulted fault _ _ => exact absurd short (fault _)
  | ended short last closed stage =>
    cases h' with
    | waits _ more _ _ _ => simp [more, last] at hending
    | ended _ _ closed' stage' => exact ⟨closed'.trans closed.symm, .inl ⟨stage', stage⟩⟩
    | faulted fault _ _ => exact absurd short (fault _)
  | faulted fault closed stage =>
    cases h' with
    | waits short _ _ _ _ => exact absurd short (fault _)
    | ended short _ _ _ => exact absurd short (fault _)
    | faulted _ closed' stage' => exact ⟨closed'.trans closed.symm, .inl ⟨stage', stage⟩⟩

/-- Of two readers that wait in step with the same bytes, each has the same part of the same frame. -/
theorem reader_eq {s' : Session} {part part' : Bytes} (h : s.supply.InStep part) (h' : s'.supply.InStep part')
    (hsettings : s'.settings = s.settings) (hreceived : s'.received = s.received)
    (hdispatched : s'.dispatched = s.dispatched) {d d' : Decoder} (hd : s.reader = .reading d)
    (hd' : s'.reader = .reading d') (hbytes : s.inlet.bytes = []) (hbytes' : s'.inlet.bytes = []) :
    s'.reader = s.reader := by
  have hall : s'.dispatched.flatMap Frame.wire ++ part' ++ s'.inlet.bytes =
      s.dispatched.flatMap Frame.wire ++ part ++ s.inlet.bytes := h'.cut.symm.trans (hreceived.trans h.cut)
  rw [hdispatched, hbytes, hbytes', List.append_nil, List.append_nil, List.append_cancel_left_eq] at hall
  have hrun : Decoder.start.run s.settings.maxSegment (part ++ []) = .short d := h.resume hd []
  have hrun' : Decoder.start.run s'.settings.maxSegment (part' ++ []) = .short d' := h'.resume hd' []
  rw [hsettings, hall, hrun] at hrun'
  rw [hd, hd', Decoder.Reading.short.inj hrun']

/-- The bytes that came in are those of whole frames, each acted on, of a part of the next one that the decoder
holds, and those that are not taken yet; reading the whole at one go gives the same frames and leaves the same.
What the decoder makes of the bytes that are there is what comes next when all are read at one go. The two
loops that work on what comes in do not run forever. Where they rest and nothing but the reader has ended the
session, reading at one go gives the frames acted on and then fails, and the reader came to what that tells. So
two runs with the same bytes come to the same, wherever these were cut. -/
theorem delivery_ignores_pieces {settings : Settings} (kind : LinkKind) (address : Option String)
    (capacity : Option Nat) (wall : Stamp) {s : Session} (h : Reachable (start settings kind address capacity wall) s) :
    (∃ part, s.received = s.dispatched.flatMap Frame.wire ++ part ++ s.inlet.bytes ∧
      Frame.readMany settings.maxSegment s.dispatched.length s.received =
        (s.dispatched.map .ok, part ++ s.inlet.bytes) ∧
      (s.reader ≠ .over → Decoder.start.run settings.maxSegment part = .short s.reader.decoder)) ∧
    (∀ d, s.reader = .reading d →
      Frame.readMany settings.maxSegment (s.dispatched.length + 1) s.received =
        (s.dispatched.map .ok ++ [(d.run settings.maxSegment s.inlet.bytes).result.1],
          (d.run settings.maxSegment s.inlet.bytes).result.2)) ∧
    (¬ ∃ f : Nat → Session, f 0 = s ∧ ∀ i, (f i).IntakeRuns (f (i + 1))) ∧
    (Undiverted (start settings kind address capacity wall) s → s.AtRest →
      (∃ cause left, Frame.readMany settings.maxSegment (s.dispatched.length + 1) s.received =
        (s.dispatched.map .ok ++ [.error cause], left) ∧ s.CameTo cause) ∧
      ∀ kind address capacity wall s', Undiverted (start settings kind address capacity wall) s' → s'.AtRest →
        s'.received = s.received → s'.inlet.ending.isSome = s.inlet.ending.isSome →
        s'.dispatched = s.dispatched ∧ s'.closed = s.closed ∧ s'.reader = s.reader) := by
  obtain rfl : s.settings = settings := h.sound.configured
  obtain ⟨part, hstep⟩ := h.exists_inStep
  refine ⟨⟨part, hstep.cut, hstep.readMany, hstep.held⟩, fun d hd => ?_, ?_, fun hu hrest =>
    ⟨hu.cameTo hrest, fun kind' address' capacity' wall' s' hu' hrest' hreceived hending => ?_⟩⟩
  · have hnext := hstep.readMany_next
    rwa [hstep.resume hd] at hnext
  · rintro ⟨f, -, hf⟩
    exact not_intakeRuns_forever hf
  · obtain ⟨cause, left, hreads, hto⟩ := hu.cameTo hrest
    obtain ⟨cause', left', hreads', hto'⟩ := hu'.cameTo hrest'
    obtain ⟨part', hstep'⟩ := hu'.reachable.exists_inStep
    rw [hreceived] at hreads'
    obtain ⟨hdispatched, rfl⟩ := Frame.eq_of_readMany_fails hreads' hreads
    obtain ⟨hclosed, hreader⟩ := hto.same hto' hending
    refine ⟨hdispatched, hclosed, ?_⟩
    rcases hreader with ⟨hover', hover⟩ | ⟨⟨d, hd⟩, ⟨d', hd'⟩, hbytes, hbytes'⟩
    · rw [hover', hover]
    · exact reader_eq hstep hstep' hu'.reachable.sound.configured hreceived hdispatched hd hd' hbytes hbytes'

/-- The state after moves that can be made in order, where nothing but the reader ends the session. -/
def playUndiverted : List Move → Session → Option Session
  | [], s => some s
  | m :: moves, s => (s.move? m).bind fun t => if diverts m s t then none else playUndiverted moves t

theorem undiverted_of_play {init : Session} (h : Undiverted init s) {moves : List Move}
    (hp : s.playUndiverted moves = some t) : Undiverted init t := by
  induction moves generalizing s with
  | nil => cases hp; exact h
  | cons m moves ih =>
    rw [playUndiverted] at hp
    obtain ⟨u, hu, hp⟩ := Option.bind_eq_some_iff.1 hp
    split at hp
    · cases hp
    · rename_i hkept
      exact ih (h.move m hu (by simpa using hkept)) hp

/-- Bytes come in and the reader takes turns. -/
def feed (bytes : Bytes) (turns : Nat) : List Move := .deliver bytes :: List.replicate turns (.run .reader true)

/-- A request for a connection, a segment for it and an unknown flag, cut behind a flag, within an id, a length
and a payload. -/
def inPieces : List Move :=
  feed [6] 2 ++ feed [1, 0] 1 ++ feed [0, 0, 3, 1, 0] 3 ++ feed [0, 0, 2] 1 ++ feed [0, 104] 1 ++
    feed [105, 9, 7] 4 ++ [.run .returns true]

/-- The same bytes at once. -/
def atOnce : List Move := feed [6, 1, 0, 0, 0, 3, 1, 0, 0, 0, 2, 0, 104, 105, 9, 7] 7 ++ [.run .returns true]

/-- Both ways the reader acts on the two frames, and the unknown flag ends the session. -/
theorem pieces_come_to_the_same :
    ∃ s s', Undiverted (start (.build []) .tcp none none 0) s ∧
      Undiverted (start (.build []) .tcp none none 0) s' ∧
      s'.dispatched = [.control .newConn 1, .data 1 [104, 105] false] ∧ s.dispatched = s'.dispatched ∧
      s.closed = true ∧ s'.closed = true := by
  have hplay : ((start (.build []) .tcp none none 0).playUndiverted inPieces).any (fun s =>
      s.AtRest && s.closed && s.inlet.ending.isNone &&
        s.received == [6, 1, 0, 0, 0, 3, 1, 0, 0, 0, 2, 0, 104, 105, 9, 7]) = true := by
    decide +kernel
  have hplay' : ((start (.build []) .tcp none none 0).playUndiverted atOnce).any (fun s =>
      s.AtRest && s.inlet.ending.isNone && s.dispatched == [.control .newConn 1, .data 1 [104, 105] false] &&
        s.received == [6, 1, 0, 0, 0, 3, 1, 0, 0, 0, 2, 0, 104, 105, 9, 7]) = true := by
    decide +kernel
  obtain ⟨s, hs, hend⟩ := (Option.any_eq_true _ _).1 hplay
  obtain ⟨s', hs', hend'⟩ := (Option.any_eq_true _ _).1 hplay'
  simp only [Bool.and_eq_true, decide_eq_true_eq, beq_iff_eq] at hend hend'
  obtain ⟨⟨⟨hrest, hclosed⟩, hending⟩, hreceived⟩ := hend
  obtain ⟨⟨⟨hrest', hending'⟩, hdispatched'⟩, hreceived'⟩ := hend'
  have hu := undiverted_of_play .refl hs
  have hu' := undiverted_of_play .refl hs'
  obtain ⟨-, hsame⟩ := (delivery_ignores_pieces .tcp none none 0 hu'.reachable).2.2.2 hu' hrest'
  obtain ⟨hdispatched, hclosed', -⟩ := hsame _ _ _ _ s hu hrest (hreceived.trans hreceived'.symm) (by simp_all)
  exact ⟨s, s', hu, hu', hdispatched', hdispatched, hclosed, hclosed' ▸ hclosed⟩

end Runs

end Session

end StreamMux
