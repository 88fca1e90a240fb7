import Mathlib.Data.List.Perm.Basic
import StreamMux.Proofs.Grammar

/-! Reading frames into pooled buffers. What is read does not depend on the pool, and the buffer of a frame
holds the payload of the frame and nothing else. A buffer that was taken for a payload that does not arrive
is given back, so the buffers that are out are those of the frames that are held. -/

namespace StreamMux

namespace Pool

variable {p : Pool} {maxSegment : Nat} {bytes : Bytes}

/-! ### Buffers -/

/-- The idle buffers are empty. -/
def Tidy (p : Pool) : Prop := ∀ b ∈ p.idle, b.bytes = []

theorem tidy_new (bufferSize maxIdle : Nat) : Tidy { bufferSize, maxIdle } := fun b hb => by cases hb

theorem Tidy.acquire (h : p.Tidy) : p.acquire.1.Tidy ∧ p.acquire.2.bytes = [] := by
  unfold Pool.acquire
  split
  · rename_i b rest hidle
    exact ⟨fun c hc => h c (hidle ▸ List.mem_cons_of_mem _ hc), h b (hidle ▸ List.mem_cons_self)⟩
  · exact ⟨fun c hc => h c hc, rfl⟩

theorem Tidy.release (h : p.Tidy) (b : Buffer) : (p.release b).Tidy := by
  unfold Pool.release
  dsimp only
  split
  · exact h
  · split
    · intro c hc
      rcases List.mem_cons.1 hc with rfl | hc
      · rfl
      · exact h c hc
    · exact h

theorem Tidy.copy (h : p.Tidy) (bytes : Bytes) :
    (p.copy bytes).1.Tidy ∧ (p.copy bytes).2.bytes = bytes := by
  obtain ⟨htidy, hempty⟩ := h.acquire
  refine ⟨htidy, ?_⟩
  simp [Pool.copy, Buffer.extend, Buffer.fill, hempty]

@[simp] theorem outstanding_acquire (p : Pool) : p.acquire.1.outstanding = p.outstanding + 1 := by
  unfold acquire
  split <;> rfl

@[simp] theorem outstanding_copy (bytes : Bytes) (p : Pool) :
    (p.copy bytes).1.outstanding = p.outstanding + 1 := outstanding_acquire p

@[simp] theorem outstanding_release (b : Buffer) (p : Pool) :
    (p.release b).outstanding = p.outstanding - 1 := by
  unfold release
  dsimp only
  split
  · rfl
  · split <;> rfl

/-! ### One frame -/

@[simp] theorem frame_receive (f : Frame) (p : Pool) : (p.receive f).2.frame = f := by
  unfold receive
  split <;> rfl

theorem isSome_receive (f : Frame) (p : Pool) : (p.receive f).2.buffer.isSome = f.payload.isSome := by
  unfold receive
  split <;> simp_all

theorem Tidy.receive (h : p.Tidy) (f : Frame) :
    (p.receive f).1.Tidy ∧ (p.receive f).2.buffer.map (·.bytes) = f.payload := by
  unfold Pool.receive
  split
  · rename_i hnone
    exact ⟨h, hnone.symm⟩
  · rename_i bytes hsome
    obtain ⟨htidy, hbytes⟩ := h.copy bytes
    exact ⟨htidy, by simp [hsome, hbytes]⟩

theorem outstanding_receive (f : Frame) (p : Pool) :
    (p.receive f).1.outstanding = p.outstanding + if f.payload.isSome then 1 else 0 := by
  unfold receive
  split <;> simp_all

/-- A payload that does not arrive leaves no buffer out. -/
@[simp] theorem outstanding_abandon (d : Decoder) (p : Pool) :
    (p.abandon d).outstanding = p.outstanding := by
  unfold abandon
  split <;> simp

theorem Tidy.abandon (h : p.Tidy) (d : Decoder) : (p.abandon d).Tidy := by
  unfold Pool.abandon
  split
  · exact h.acquire.1.release _
  · exact h

theorem Tidy.readFrame (h : p.Tidy) (maxSegment : Nat) (bytes : Bytes) :
    (p.readFrame maxSegment bytes).1.Tidy := by
  unfold Pool.readFrame
  split
  · exact h.abandon _
  · exact h
  · exact (h.receive _).1

/-- A frame that was read was put into a buffer exactly if its flag carries a payload. -/
theorem receive_of_readFrame {q : Pool} {r : Received} {rest : Bytes}
    (h : p.readFrame maxSegment bytes = (q, .ok r, rest)) :
    p.receive r.frame = (q, r) ∧ r.frame.payload.isSome = r.frame.flag.hasPayload := by
  unfold readFrame at h
  split at h
  · cases h
  · cases h
  · rename_i f left hrun
    have hframe := frame_receive f p
    rcases hreceive : p.receive f with ⟨pool, received⟩
    rw [hreceive] at h hframe
    cases h
    rw [hframe]
    exact ⟨hreceive, Decoder.isSome_payload_of_run hrun⟩

/-- A read that fails leaves no buffer out. -/
theorem outstanding_of_readFrame {q : Pool} {cause : FrameError} {rest : Bytes}
    (h : p.readFrame maxSegment bytes = (q, .error cause, rest)) : q.outstanding = p.outstanding := by
  unfold readFrame at h
  split at h <;> cases h
  · exact outstanding_abandon _ p
  · rfl

/-- Reading a whole string, held to its end, leaves the buffers of the frames that it held out. -/
theorem outstanding_readStream (maxSegment : Nat) (bytes : Bytes) (p : Pool) :
    (p.readStream maxSegment bytes).pool.outstanding = p.outstanding +
      (p.readStream maxSegment bytes).frames.countP (·.1.frame.flag.hasPayload) := by
  induction bytes, p using readStream.induct maxSegment with
  | case1 bytes p d hrun =>
    rw [readStream]
    split <;> simp_all
  | case2 bytes p cause rest hrun =>
    rw [readStream]
    split <;> simp_all
  | case3 bytes p f rest hrun pool r hreceive ih =>
    have hpool : pool.outstanding = p.outstanding + if f.payload.isSome then 1 else 0 := by
      rw [← outstanding_receive, hreceive]
    have hframe : r.frame = f := by rw [← frame_receive f p, hreceive]
    rw [Decoder.isSome_payload_of_run hrun] at hpool
    rw [readStream]
    split
    · simp_all
    · simp_all
    · rename_i g left hrun'
      obtain ⟨rfl, rfl⟩ : f = g ∧ rest = left := by simpa [hrun] using hrun'
      simp only [hreceive, List.countP_cons, hframe, ih]
      omega

end Pool

/-! ### Frames that are held -/

/-- A pool, and the frames that were read into its buffers and are held. -/
structure Holding where
  pool : Pool
  frames : List Received := []

namespace Holding

/-- Read a frame from the front of a string, and hold it. -/
def read (maxSegment : Nat) (bytes : Bytes) (s : Holding) : Holding :=
  match s.pool.readFrame maxSegment bytes with
  | (pool, .ok r, _) => { pool, frames := s.frames ++ [r] }
  | (pool, .error _, _) => { s with pool }

/-- Let the frame at a place go. -/
def drop (i : Nat) (s : Holding) : Holding :=
  match s.frames[i]? with
  | some r => { pool := r.release s.pool, frames := s.frames.eraseIdx i }
  | none => s

/-- What a reader of frames does. -/
inductive Act
  | read (maxSegment : Nat) (bytes : Bytes)
  | drop (i : Nat)

def act (s : Holding) : Act → Holding
  | .read maxSegment bytes => s.read maxSegment bytes
  | .drop i => s.drop i

/-- So many of the held frames carry a payload. -/
def laden (s : Holding) : Nat := s.frames.countP (·.frame.flag.hasPayload)

/-- Of the buffers that are out, all but `others` hold the payloads of the frames that are held. -/
structure Counted (others : Nat) (s : Holding) : Prop where
  buffers : ∀ r ∈ s.frames, r.buffer.isSome = r.frame.flag.hasPayload
  outstanding : s.pool.outstanding = others + s.laden

variable {others : Nat} {s : Holding}

theorem Counted.read (h : s.Counted others) (maxSegment : Nat) (bytes : Bytes) :
    (s.read maxSegment bytes).Counted others := by
  have hout := h.outstanding
  unfold Holding.read
  split
  · rename_i pool r rest hread
    obtain ⟨hreceive, hcarries⟩ := Pool.receive_of_readFrame hread
    have hbuffer : r.buffer.isSome = r.frame.flag.hasPayload := by
      rw [← hcarries, ← Pool.isSome_receive r.frame s.pool, hreceive]
    have hpool : pool.outstanding = s.pool.outstanding + if r.frame.flag.hasPayload then 1 else 0 := by
      rw [← hcarries, ← Pool.outstanding_receive, hreceive]
    refine ⟨fun q hq => ?_, ?_⟩
    · rcases List.mem_append.1 hq with hq | hq
      · exact h.buffers q hq
      · exact List.mem_singleton.1 hq ▸ hbuffer
    · simp only [laden, List.countP_append, List.countP_singleton] at hout ⊢
      omega
  · rename_i pool cause rest hread
    exact ⟨h.buffers, (Pool.outstanding_of_readFrame hread).trans hout⟩

theorem Counted.drop (h : s.Counted others) (i : Nat) : (s.drop i).Counted others := by
  have hout := h.outstanding
  unfold Holding.drop
  split
  · rename_i r hr
    obtain ⟨hlt, hget⟩ := List.getElem?_eq_some_iff.1 hr
    refine ⟨fun q hq => h.buffers q (List.mem_of_mem_eraseIdx hq), ?_⟩
    have hcount : s.laden = (s.frames.eraseIdx i).countP (·.frame.flag.hasPayload) +
        if r.frame.flag.hasPayload then 1 else 0 := by
      have hperm := (List.getElem_cons_eraseIdx_perm hlt).countP_eq (·.frame.flag.hasPayload)
      rw [hget, List.countP_cons] at hperm
      exact hperm.symm
    rw [← h.buffers r (List.mem_of_getElem? hr)] at hcount
    unfold Received.release
    split
    · rename_i b hb
      rw [hb] at hcount
      simp only [laden, Pool.outstanding_release, Option.isSome_some, ↓reduceIte] at hcount hout ⊢
      omega
    · rename_i hb
      rw [hb] at hcount
      simp only [laden, Option.isSome_none, Bool.false_eq_true, ↓reduceIte] at hcount hout ⊢
      omega
  · exact h

theorem Counted.act (h : s.Counted others) (a : Act) : (s.act a).Counted others := by
  cases a with
  | read maxSegment bytes => exact h.read maxSegment bytes
  | drop i => exact h.drop i

theorem Counted.foldl (h : s.Counted others) (acts : List Act) :
    (acts.foldl Holding.act s).Counted others := by
  induction acts generalizing s with
  | nil => exact h
  | cons a acts ih => exact ih (h.act a)

/-- Of the buffers that were out at the start all are, and one for each frame with a payload that was read
and is held. -/
theorem outstanding_foldl (p : Pool) (acts : List Act) :
    (acts.foldl act ⟨p, []⟩).pool.outstanding = p.outstanding + (acts.foldl act ⟨p, []⟩).laden :=
  (Counted.foldl (s := ⟨p, []⟩) ⟨by simp, rfl⟩ acts).outstanding

end Holding

/-! ### What reading a frame does -/

namespace Pool

variable {p : Pool} {maxSegment : Nat} {bytes : Bytes}

theorem frame_readFrame_iff {f : Frame} {rest : Bytes} :
    (p.readFrame maxSegment bytes).2.1.map Received.frame = .ok f ∧
        (p.readFrame maxSegment bytes).2.2 = rest ↔
      Decoder.start.run maxSegment bytes = .frame f rest := by
  unfold readFrame
  split <;> rename_i hrun <;> simp [hrun, Except.map]

theorem short_readFrame_iff : (p.readFrame maxSegment bytes).2.1 = .error (.link .endOfStream) ↔
    ∃ d, Decoder.start.run maxSegment bytes = .short d := by
  unfold readFrame
  split <;> rename_i hrun
  · simp [hrun]
  · have hlink : ‹FrameError› ≠ .link .endOfStream := by
      rintro rfl
      cases Decoder.run_eq_error_iff.1 hrun
    simp [hrun, hlink]
  · simp [hrun]

theorem fault_readFrame_iff {cause : FrameError} (hcause : cause ≠ .link .endOfStream) :
    (p.readFrame maxSegment bytes).2.1 = .error cause ↔ ∃ rest, Fault maxSegment cause bytes rest := by
  simp only [← Decoder.run_eq_error_iff]
  unfold readFrame
  split <;> rename_i hrun <;> simp [hrun, hcause.symm]

theorem Tidy.bytes_readFrame (h : p.Tidy) {r : Received}
    (hr : (p.readFrame maxSegment bytes).2.1 = .ok r) : r.buffer.map (·.bytes) = r.frame.payload := by
  rcases hread : p.readFrame maxSegment bytes with ⟨pool, outcome, rest⟩
  rw [hread] at hr
  subst hr
  rw [← (h.receive r.frame).2, (receive_of_readFrame hread).1]

end Pool

/-- Reading a string gives a frame exactly if the string begins with the layout of that frame, with a payload
within the limit, and leaves what stands behind it; the buffer holds the payload. It fails for an unknown
flag exactly if the first byte is none, for the length exactly if the flag carries a payload and the whole
length is there and over the limit, and for the end of the string in all other cases, so for every part of
the writing of a frame. After any number of reads from any strings, with any of the frames let go, the
buffers that are out are those that were out before, and one for each held frame with a payload; likewise
after a whole string was read frame by frame up to its end. -/
theorem readFrame_follows_layout (maxSegment : Nat) (bytes : Bytes) {p : Pool} (hp : p.Tidy) :
    (∀ f rest, ((p.readFrame maxSegment bytes).2.1.map Received.frame = .ok f ∧
        (p.readFrame maxSegment bytes).2.2 = rest) ↔
      ∃ text, bytes = text ++ rest ∧ f.Layout text ∧ f.Fits maxSegment) ∧
    (∀ r, (p.readFrame maxSegment bytes).2.1 = .ok r →
      r.buffer.map (·.bytes) = r.frame.payload ∧ r.copied = r.frame.bytes.length) ∧
    (∀ byte, (p.readFrame maxSegment bytes).2.1 = .error (.unknownFlag byte) ↔
      bytes.head? = some byte ∧ 8 < byte.toNat) ∧
    (∀ length limit, (p.readFrame maxSegment bytes).2.1 = .error (.payloadTooLarge length limit) ↔
      ∃ flag rest, Announces bytes flag length rest ∧ flag.payloadLimit maxSegment = limit ∧ limit < length) ∧
    ((p.readFrame maxSegment bytes).2.1 = .error (.link .endOfStream) ↔
      (∀ (f : Frame) (text rest : Bytes), bytes = text ++ rest → f.Layout text → ¬ f.Fits maxSegment) ∧
      (∀ byte, bytes.head? = some byte → byte.toNat ≤ 8) ∧
      ∀ flag length rest, Announces bytes flag length rest → length ≤ flag.payloadLimit maxSegment) ∧
    (∀ reason, (p.readFrame maxSegment bytes).2.1 ≠ .error (.link (.failed reason))) ∧
    (∀ (f : Frame) (text part : Bytes), f.encode maxSegment = .ok text → part <+: text → part ≠ text →
      (p.readFrame maxSegment part).2 = (.error (.link .endOfStream), [])) ∧
    (∀ acts : List Holding.Act, (acts.foldl Holding.act ⟨p, []⟩).pool.outstanding =
      p.outstanding + (acts.foldl Holding.act ⟨p, []⟩).laden) ∧
    (p.readStream maxSegment bytes).pool.outstanding = p.outstanding +
      (p.readStream maxSegment bytes).frames.countP (·.1.frame.flag.hasPayload) := by
  have hflag (byte : UInt8) : (∃ rest, Fault maxSegment (.unknownFlag byte) bytes rest) ↔
      bytes.head? = some byte ∧ 8 < byte.toNat := by
    constructor
    · rintro ⟨rest, hfault⟩
      cases hfault with
      | flag _ unknown => exact ⟨rfl, unknown⟩
    · rintro ⟨hhead, hunknown⟩
      obtain ⟨rest, rfl⟩ := List.head?_eq_some_iff.1 hhead
      exact ⟨rest, .flag rest hunknown⟩
  have hlength (length limit : Nat) :
      (∃ rest, Fault maxSegment (.payloadTooLarge length limit) bytes rest) ↔
        ∃ flag rest, Announces bytes flag length rest ∧ flag.payloadLimit maxSegment = limit ∧
          limit < length := by
    constructor
    · rintro ⟨rest, hfault⟩
      cases hfault with
      | length announces long => exact ⟨_, rest, announces, rfl, long⟩
    · rintro ⟨flag, rest, announces, rfl, long⟩
      exact ⟨rest, .length announces long⟩
  refine ⟨fun f rest => Pool.frame_readFrame_iff.trans Decoder.run_eq_frame_iff, fun r hr => ?_,
    fun byte => (Pool.fault_readFrame_iff (by simp)).trans (hflag byte),
    fun length limit => (Pool.fault_readFrame_iff (by simp)).trans (hlength length limit), ?_,
    fun reason hfail => ?_, fun f text part hencode hpart hne => ?_, Holding.outstanding_foldl p,
    Pool.outstanding_readStream maxSegment bytes p⟩
  · have hbytes := hp.bytes_readFrame hr
    refine ⟨hbytes, ?_⟩
    rw [Received.copied, Frame.bytes, ← hbytes]
    cases r.buffer <;> rfl
  · rw [Pool.short_readFrame_iff]
    constructor
    · rintro ⟨d, hshort⟩
      refine ⟨fun f text rest htext hlayout hfit => ?_, fun byte hbyte => ?_, fun flag length rest h => ?_⟩
      · rw [Decoder.run_eq_frame_iff.2 ⟨text, htext, hlayout, hfit⟩] at hshort
        cases hshort
      · by_contra hunknown
        obtain ⟨rest, hfault⟩ := (hflag byte).2 ⟨hbyte, by omega⟩
        rw [Decoder.run_eq_error_iff.2 hfault] at hshort
        cases hshort
      · by_contra hlong
        obtain ⟨left, hfault⟩ := (hlength length _).2 ⟨flag, rest, h, rfl, by omega⟩
        rw [Decoder.run_eq_error_iff.2 hfault] at hshort
        cases hshort
    · rintro ⟨hframe, hknown, hshort⟩
      cases hrun : Decoder.start.run maxSegment bytes with
      | short d => exact ⟨d, rfl⟩
      | frame f rest =>
        obtain ⟨text, htext, hlayout, hfit⟩ := Decoder.run_eq_frame_iff.1 hrun
        exact absurd hfit (hframe f text rest htext hlayout)
      | error cause rest =>
        cases Decoder.run_eq_error_iff.1 hrun with
        | flag _ unknown => exact absurd (hknown _ rfl) (by omega)
        | length announces long => exact absurd (hshort _ _ _ announces) (by omega)
  · obtain ⟨rest, hfault⟩ := (Pool.fault_readFrame_iff (by simp)).1 hfail
    cases hfault
  · have hfit : f.Fits maxSegment := by
      by_contra hnot
      rw [Frame.encode_of_not_fits hnot] at hencode
      cases hencode
    obtain rfl : f.wire = text := by rw [Frame.encode_of_fits hfit] at hencode; exact Except.ok.inj hencode
    obtain ⟨d, hshort⟩ := Decoder.run_part hfit hpart hne
    rw [Pool.readFrame, hshort]

/-- A segment of two bytes, which a byte of the next frame follows, and the same cut by a byte. -/
theorem readFrame_segment :
    (((({ bufferSize := 4096, maxIdle := 4 } : Pool).readFrame 16 [3, 1, 0, 0, 0, 2, 0, 104, 105, 9]).2.1.map
        Received.frame = .ok (.data 1 [104, 105] false)) ∧
      (({ bufferSize := 4096, maxIdle := 4 } : Pool).readFrame 16
        [3, 1, 0, 0, 0, 2, 0, 104, 105, 9]).2.2 = [9]) ∧
    (({ bufferSize := 4096, maxIdle := 4 } : Pool).readFrame 16 [3, 1, 0, 0, 0, 2, 0, 104]).2 =
      (.error (.link .endOfStream), []) := by
  have hfit : (Frame.data 1 [104, 105] false).Fits 16 := fun _ => by decide
  have hread := readFrame_follows_layout 16 [3, 1, 0, 0, 0, 2, 0, 104, 105, 9] (Pool.tidy_new 4096 4)
  refine ⟨(hread.1 _ _).2 ⟨_, ?_, Frame.layout_wire rfl hfit, hfit⟩, ?_⟩
  · rfl
  · exact hread.2.2.2.2.2.2.1 _ _ _ (Frame.encode_of_fits hfit) (by decide) (by decide)

end StreamMux
