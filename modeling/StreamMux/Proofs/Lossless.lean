import StreamMux.Proofs.Codec

/-! Whole streams of frames. Frames that are written one after the other into a buffer are read back as
their readers see them, whatever follows; a frame that is refused leaves no byte behind. And what is read
is what was written: a frame that was read has one writing, the bytes that it took. -/

namespace StreamMux

namespace LittleEndian

theorem encode_decode_of_length {bs : Bytes} {width : Nat} (h : bs.length = width) :
    encode width (decode bs) = bs := h ▸ encode_decode bs

end LittleEndian

namespace Frame

variable {maxSegment : Nat}

/-! ### Writing -/

/-- The payload is within the limit of the flag, if the flag carries one. -/
def Fits (maxSegment : Nat) (f : Frame) : Prop :=
  f.flag.hasPayload = true → f.bytes.length ≤ f.flag.payloadLimit maxSegment

theorem encode_of_fits {f : Frame} (h : f.Fits maxSegment) : f.encode maxSegment = .ok f.wire := by
  rw [encode, if_neg]
  rintro ⟨hp, hlt⟩
  exact Nat.not_lt.2 (h hp) hlt

theorem encode_of_not_fits {f : Frame} (h : ¬ f.Fits maxSegment) :
    f.encode maxSegment =
      .error (.payloadTooLarge f.bytes.length (f.flag.payloadLimit maxSegment)) := by
  rw [encode, if_pos]
  rwa [Fits, Classical.not_imp, Nat.not_le] at h

/-- Writing into a buffer puts the bytes of the frame behind what is there, or nothing. -/
theorem encodeOnto_eq (buffer : Bytes) (f : Frame) :
    f.encodeOnto maxSegment buffer =
      match f.encode maxSegment with
      | .ok bytes => (.ok (), buffer ++ bytes)
      | .error cause => (.error cause, buffer) := by
  by_cases hfit : f.Fits maxSegment
  · rw [encode_of_fits hfit, encodeOnto, if_neg fun h => Nat.not_lt.2 (hfit h.1) h.2]
    cases hp : f.flag.hasPayload
    · by_cases hok : f.flag = .msgSendOk
      · simp [wire, body, hok, Flag.hasPayload]
      · simp [wire, body, hp, hok]
    · simp [wire, body, hp]
  · rw [encode_of_not_fits hfit, encodeOnto, if_pos]
    rwa [Fits, Classical.not_imp, Nat.not_le] at hfit

theorem encodeOnto_of_fits {f : Frame} (h : f.Fits maxSegment) (buffer : Bytes) :
    f.encodeOnto maxSegment buffer = (.ok (), buffer ++ f.wire) := by
  rw [encodeOnto_eq, encode_of_fits h]

/-- A frame is written exactly if it fits, with as many bytes as it announces. -/
theorem encodeOnto_cases (maxSegment : Nat) (buffer : Bytes) (f : Frame) :
    (f.Fits maxSegment ∧ f.encodeOnto maxSegment buffer = (.ok (), buffer ++ f.wire) ∧
        f.wire.length = f.encodedLength) ∨
      (¬ f.Fits maxSegment ∧ ∃ cause, f.encodeOnto maxSegment buffer = (.error cause, buffer)) := by
  by_cases h : f.Fits maxSegment
  · exact .inl ⟨h, encodeOnto_of_fits h buffer, length_wire f⟩
  · exact .inr ⟨h, _, by rw [encodeOnto_eq, encode_of_not_fits h]⟩

/-- All frames are written exactly if all fit. -/
theorem encodeAll_ok_iff (buffer : Bytes) (frames : List Frame) :
    (∀ outcome ∈ (encodeAll maxSegment buffer frames).1, outcome = .ok ()) ↔
      ∀ f ∈ frames, f.Fits maxSegment := by
  induction frames generalizing buffer with
  | nil => simp [encodeAll]
  | cons f frames ih =>
    rw [encodeAll, List.forall_mem_cons, List.forall_mem_cons, ih]
    apply and_congr_left'
    rcases encodeOnto_cases maxSegment buffer f with ⟨hfit, he, -⟩ | ⟨hfit, cause, he⟩ <;>
      simp [he, hfit]

theorem encodeAll_of_fits {frames : List Frame} (h : ∀ f ∈ frames, f.Fits maxSegment)
    (buffer : Bytes) : (encodeAll maxSegment buffer frames).2 = buffer ++ frames.flatMap wire := by
  induction frames generalizing buffer with
  | nil => simp [encodeAll]
  | cons f frames ih =>
    obtain ⟨hf, hframes⟩ := List.forall_mem_cons.1 h
    rw [encodeAll, encodeOnto_of_fits hf]
    simp [ih hframes]

/-! ### Reading back -/

theorem read_wire {f : Frame} (h : f.Fits maxSegment) (rest : Bytes) :
    Frame.read maxSegment (f.wire ++ rest) = (.ok f.normal, rest) := by
  rw [Frame.read, Decoder.run_wire rest h]

theorem readMany_wires {frames : List Frame} (h : ∀ f ∈ frames, f.Fits maxSegment) (rest : Bytes) :
    readMany maxSegment frames.length (frames.flatMap wire ++ rest) =
      (frames.map fun f => .ok f.normal, rest) := by
  induction frames with
  | nil => rfl
  | cons f frames ih =>
    obtain ⟨hf, hframes⟩ := List.forall_mem_cons.1 h
    rw [List.length_cons, readMany, List.flatMap_cons, List.append_assoc, read_wire hf]
    simp only [ih hframes, List.map_cons]

end Frame

/-! ### Reading is writing backwards -/

namespace Decoder

variable {maxSegment : Nat} {f : Frame} {rest : Bytes}

/-- Reading that comes to an end from inside a field has the whole field. -/
theorem field_of_settled (place : Bytes → Decoder) (width : Nat) (done : Bytes → Progress)
    (hstep : ∀ got byte, (place got).step maxSegment byte =
      if (got ++ [byte]).length < width then .more (place (got ++ [byte])) else done (got ++ [byte]))
    {got bytes : Bytes} {reading : Reading} (hlt : got.length < width)
    (h : run maxSegment (place got) bytes = reading) (hend : ∀ d, reading ≠ .short d) :
    ∃ field tail, bytes = field ++ tail ∧ got.length + field.length = width ∧
      (done (got ++ field)).onward maxSegment tail = reading := by
  induction bytes generalizing got with
  | nil => exact absurd h.symm (hend _)
  | cons b bytes ih =>
    rw [run_cons, hstep] at h
    by_cases hmore : (got ++ [b]).length < width
    · rw [if_pos hmore] at h
      obtain ⟨field, tail, rfl, hlen, hdone⟩ := ih hmore h
      refine ⟨b :: field, tail, rfl, ?_, by simpa using hdone⟩
      simp only [List.length_append, List.length_cons, List.length_nil] at hlen ⊢
      omega
    · rw [if_neg hmore] at h
      refine ⟨[b], bytes, rfl, ?_, h⟩
      simp only [List.length_append, List.length_cons, List.length_nil] at hmore ⊢
      omega

/-- A frame that is read on from inside a field has the whole field. -/
theorem field_of_run (place : Bytes → Decoder) (width : Nat) (done : Bytes → Progress)
    (hstep : ∀ got byte, (place got).step maxSegment byte =
      if (got ++ [byte]).length < width then .more (place (got ++ [byte])) else done (got ++ [byte]))
    {got bytes : Bytes} (hlt : got.length < width)
    (h : run maxSegment (place got) bytes = .frame f rest) :
    ∃ field tail, bytes = field ++ tail ∧ got.length + field.length = width ∧
      (done (got ++ field)).onward maxSegment tail = .frame f rest :=
  field_of_settled place width done hstep hlt h (by simp)

theorem payload_of_run {flag : Flag} {id : Int32} {missing : Nat} {got bytes : Bytes}
    (hpos : 0 < missing) (h : run maxSegment (.inPayload flag id missing got) bytes = .frame f rest) :
    ∃ payload, bytes = payload ++ rest ∧ payload.length = missing ∧
      f = { flag, id, payload := some (got.reverse ++ payload) } := by
  induction bytes generalizing missing got with
  | nil => cases h
  | cons b bytes ih =>
    rw [run_cons, step] at h
    by_cases hlast : missing ≤ 1
    · rw [if_pos hlast] at h
      cases h
      exact ⟨[b], rfl, by simp only [List.length_singleton]; omega, by simp⟩
    · rw [if_neg hlast] at h
      obtain ⟨payload, rfl, hlen, rfl⟩ := ih (by omega) h
      exact ⟨b :: payload, rfl, by simp only [List.length_cons]; omega, by simp⟩

theorem encode_idOfBytes {field : Bytes} (h : field.length = 4) :
    LittleEndian.encode 4 (idOfBytes field).toUInt32.toNat = field := by
  have hlt : LittleEndian.decode field < 4294967296 := by
    have := LittleEndian.decode_lt field
    rwa [h] at this
  have hn : (idOfBytes field).toUInt32.toNat = LittleEndian.decode field := by
    simp only [idOfBytes, UInt32.toUInt32_toInt32, UInt32.toNat_ofNat']
    omega
  rw [hn, LittleEndian.encode_decode_of_length h]

/-- A frame that carries a payload, read from behind its id. -/
theorem body_of_length {flag : Flag} {id : Int32} {bytes : Bytes} (hp : flag.hasPayload = true)
    (h : run maxSegment (.inLength flag id []) bytes = .frame f rest) :
    f.flag = flag ∧ f.id = id ∧ f.Fits maxSegment ∧ bytes = f.body ++ rest := by
  obtain ⟨field, tail, rfl, hlen, hdone⟩ :=
    field_of_run (.inLength flag id) lengthSize
      (fun field => afterLength maxSegment flag id (LittleEndian.decode field)) (fun _ _ => rfl)
      (by decide) h
  have hfield : field.length = lengthSize := by simpa using hlen
  rw [List.nil_append, afterLength] at hdone
  split at hdone
  · cases hdone
  · rename_i hlimit
    split at hdone
    · rename_i hz
      cases hdone
      refine ⟨rfl, rfl, fun _ => Nat.zero_le _, ?_⟩
      simp [Frame.body, hp, Frame.bytes, ← hz, LittleEndian.encode_decode_of_length hfield]
    · rename_i hz
      obtain ⟨payload, rfl, hpayload, rfl⟩ := payload_of_run (Nat.pos_of_ne_zero hz) hdone
      refine ⟨rfl, rfl, fun _ => ?_, ?_⟩
      · simpa [Frame.bytes, hpayload] using hlimit
      · simp [Frame.body, hp, Frame.bytes, hpayload, LittleEndian.encode_decode_of_length hfield]

/-- A credit report, read from behind its id. -/
theorem body_of_window {id : Int32} {bytes : Bytes}
    (h : run maxSegment (.inWindow id []) bytes = .frame f rest) :
    f.flag = .msgSendOk ∧ f.id = id ∧ bytes = f.body ++ rest := by
  obtain ⟨field, tail, rfl, hlen, hdone⟩ :=
    field_of_run (.inWindow id) windowSize
      (fun field => .frame (.sendOk id (UInt32.ofNat (LittleEndian.decode field)))) (fun _ _ => rfl)
      (by decide) h
  have hfield : field.length = windowSize := by simpa using hlen
  have hlt : LittleEndian.decode field < 4294967296 := by
    have := LittleEndian.decode_lt field
    rwa [hfield] at this
  cases hdone
  refine ⟨rfl, rfl, ?_⟩
  simp [Frame.body, Frame.sendOk, Flag.hasPayload, Nat.mod_eq_of_lt hlt,
    LittleEndian.encode_decode_of_length hfield]

/-- What is read is the writing of the frame, and the frame fits. -/
theorem wire_of_run {bytes : Bytes} (h : run maxSegment .start bytes = .frame f rest) :
    f.Fits maxSegment ∧ bytes = f.wire ++ rest := by
  rcases bytes with _ | ⟨b, bytes⟩
  · cases h
  rw [run_cons, step] at h
  rcases hb : Flag.ofByte? b with _ | flag
  · rw [hb] at h; cases h
  rw [hb] at h
  obtain ⟨field, tail, rfl, hlen, hdone⟩ :=
    field_of_run (.inId flag) 4 (fun field => afterId flag (idOfBytes field)) (fun _ _ => rfl)
      (by decide) h
  have hfield : field.length = 4 := by simpa using hlen
  rw [List.nil_append, afterId] at hdone
  have hwire : ∀ f : Frame, f.flag = flag → f.id = idOfBytes field → tail = f.body ++ rest →
      b :: (field ++ tail) = f.wire ++ rest := by
    rintro f rfl hid rfl
    simp [Frame.wire, hid, encode_idOfBytes hfield, Flag.toByte_of_ofByte? hb]
  cases hp : flag.hasPayload
  · have hfits : f.flag = flag → f.Fits maxSegment := fun he hq => by rw [he, hp] at hq; cases hq
    by_cases hok : flag = .msgSendOk
    · subst hok
      obtain ⟨hflag, hid, hbody⟩ := body_of_window hdone
      exact ⟨hfits hflag, hwire f hflag hid hbody⟩
    · rw [hp, if_neg (by simp), if_neg hok] at hdone
      cases hdone
      exact ⟨hfits rfl, hwire _ rfl rfl (by simp [Frame.body, Frame.control, hp, hok])⟩
  · rw [hp, if_pos rfl] at hdone
    obtain ⟨hflag, hid, hfit, hbody⟩ := body_of_length hp hdone
    exact ⟨hfit, hwire f hflag hid hbody⟩

end Decoder

namespace Frame

theorem encode_of_read {maxSegment : Nat} {bytes rest : Bytes} {f : Frame}
    (h : Frame.read maxSegment bytes = (.ok f, rest)) :
    ∃ consumed, bytes = consumed ++ rest ∧ f.encode maxSegment = .ok consumed := by
  unfold Frame.read at h
  split at h
  · cases h
  · rename_i hrun
    cases h
    obtain ⟨hfit, rfl⟩ := Decoder.wire_of_run hrun
    exact ⟨f.wire, rfl, encode_of_fits hfit⟩
  · cases h

/-- Frames of any fields are all written exactly if every payload that a flag carries is within its
limit. A frame that is written adds the bytes that it announces behind those in the buffer, and one that
is refused adds none. Written frames are read back in order, as their readers see them, and what follows
them is left. And a frame that is read from any bytes is written again as just those that it took. -/
theorem streams_read_back (maxSegment : Nat) (frames : List Frame) (buffer rest : Bytes) :
    ((∀ outcome ∈ (encodeAll maxSegment buffer frames).1, outcome = .ok ()) ↔
      ∀ f ∈ frames, f.flag.hasPayload = true → f.bytes.length ≤ f.flag.payloadLimit maxSegment) ∧
    (∀ f ∈ frames, ∀ before : Bytes,
      (∃ added, f.encodeOnto maxSegment before = (.ok (), before ++ added) ∧
        added.length = f.encodedLength) ∨
      ∃ cause, f.encodeOnto maxSegment before = (.error cause, before)) ∧
    ((∀ outcome ∈ (encodeAll maxSegment buffer frames).1, outcome = .ok ()) →
      ∃ added, (encodeAll maxSegment buffer frames).2 = buffer ++ added ∧
        readMany maxSegment frames.length (added ++ rest) = (frames.map fun f => .ok f.normal, rest)) ∧
    ∀ bytes f left, Frame.read maxSegment bytes = (.ok f, left) →
      ∃ consumed, bytes = consumed ++ left ∧ f.encode maxSegment = .ok consumed := by
  refine ⟨encodeAll_ok_iff buffer frames, fun f _ before => ?_, fun hok => ?_,
    fun _ _ _ => encode_of_read⟩
  · rcases encodeOnto_cases maxSegment before f with ⟨-, he, hlen⟩ | ⟨-, he⟩
    · exact .inl ⟨f.wire, he, hlen⟩
    · exact .inr he
  · have hfits := (encodeAll_ok_iff buffer frames).1 hok
    exact ⟨_, encodeAll_of_fits hfits buffer, readMany_wires hfits rest⟩

/-- A segment, a report and a ping without a payload, behind two bytes and in front of one. -/
example : readMany 4 3 ((encodeAll 4 [7, 7]
      [.data 1 [120, 121] true, .sendOk 1 5, { flag := .ping, id := -1 }]).2.drop 2 ++ [9]) =
    ([.ok (.data 1 [120, 121] true), .ok (.sendOk 1 5), .ok (.ping [])], [9]) := by rfl

end Frame

end StreamMux
