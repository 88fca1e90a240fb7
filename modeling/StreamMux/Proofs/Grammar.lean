import StreamMux.Proofs.Lossless
import StreamMux.Buffer.Intake

/-! What the decoder takes for a frame. It takes exactly the layout of a frame whose payload is within the
limit of its flag, and nothing behind it. Two things are faults as soon as they show: a first byte that is
no flag, and a length over the limit. All other strings stop short of a frame. -/

namespace StreamMux

/-! ### The layout of a frame -/

namespace Frame

/-- The layout of a frame: the code of its flag and its id, then a payload behind its length, or the credit
of a credit report, or nothing. -/
inductive Layout : Frame → Bytes → Prop
  | payload {flag : Flag} {id length payload : Bytes} (carries : flag.hasPayload = true)
      (idWidth : id.length = 4) (lengthWidth : length.length = 2)
      (announced : LittleEndian.decode length = payload.length) :
      Layout { flag, id := Decoder.idOfBytes id, payload := some payload }
        (flag.toByte :: (id ++ (length ++ payload)))
  | credit {id window : Bytes} (idWidth : id.length = 4) (windowWidth : window.length = 4) :
      Layout (.sendOk (Decoder.idOfBytes id) (UInt32.ofNat (LittleEndian.decode window)))
        (Flag.msgSendOk.toByte :: (id ++ window))
  | bare {flag : Flag} {id : Bytes} (carries : flag.hasPayload = false) (other : flag ≠ .msgSendOk)
      (idWidth : id.length = 4) : Layout (.control flag (Decoder.idOfBytes id)) (flag.toByte :: id)

variable {maxSegment : Nat} {f : Frame} {bytes text rest : Bytes}

/-- A text in the layout of a frame is the writing of the frame, which its reader sees as it is. -/
theorem Layout.eq_wire (h : f.Layout text) : text = f.wire ∧ f.normal = f := by
  cases h with
  | @payload flag id length payload carries idWidth lengthWidth announced =>
    have hother : flag ≠ .msgSendOk := by rintro rfl; cases carries
    refine ⟨?_, by simp [normal, carries, Frame.bytes, hother]⟩
    simp [wire, body, carries, Frame.bytes, ← announced, Decoder.encode_idOfBytes idWidth, lengthSize,
      LittleEndian.encode_decode_of_length lengthWidth]
  | @credit id window idWidth windowWidth =>
    have hlt : LittleEndian.decode window < 4294967296 := by
      have := LittleEndian.decode_lt window
      rwa [windowWidth] at this
    refine ⟨?_, rfl⟩
    simp [wire, body, sendOk, Flag.hasPayload, Decoder.encode_idOfBytes idWidth, windowSize,
      Nat.mod_eq_of_lt hlt, LittleEndian.encode_decode_of_length windowWidth]
  | bare carries other idWidth =>
    refine ⟨?_, by simp [normal, control, carries, other]⟩
    simp [wire, body, control, carries, other, Decoder.encode_idOfBytes idWidth]

/-- The writing of a frame has its layout, if the frame holds only what its flag lets the wire carry. -/
theorem layout_wire (hnormal : f.normal = f) (hfit : f.Fits maxSegment) : f.Layout f.wire := by
  obtain ⟨flag, id, payload, window⟩ := f
  simp only [normal, Frame.mk.injEq, true_and] at hnormal
  obtain ⟨hpayload, hwindow⟩ := hnormal
  have hid : (LittleEndian.encode 4 id.toUInt32.toNat).length = 4 := LittleEndian.length_encode ..
  by_cases hcarries : flag.hasPayload = true
  · have hother : flag ≠ .msgSendOk := by rintro rfl; cases hcarries
    rw [if_pos hcarries] at hpayload
    rw [if_neg hother] at hwindow
    obtain ⟨data, rfl⟩ : ∃ data, payload = some data := ⟨_, hpayload.symm⟩
    have hlimit : data.length ≤ maxPayload := Nat.le_trans (hfit hcarries) (Flag.payloadLimit_le ..)
    have hlength : LittleEndian.decode (LittleEndian.encode 2 data.length) = data.length := by
      rw [LittleEndian.decode_encode, Nat.mod_eq_of_lt]
      unfold maxPayload at hlimit
      omega
    have h := Layout.payload hcarries hid (LittleEndian.length_encode ..) hlength
    rw [Decoder.idOfBytes_encode] at h
    simpa [wire, body, hcarries, Frame.bytes, lengthSize, ← hwindow] using h
  · rw [Bool.not_eq_true] at hcarries
    rw [hcarries, if_neg Bool.false_ne_true] at hpayload
    by_cases hother : flag = .msgSendOk
    · subst hother
      have hlt : window.toNat < 256 ^ 4 := window.toNat_lt
      have h := Layout.credit hid (LittleEndian.length_encode 4 window.toNat)
      rw [Decoder.idOfBytes_encode, LittleEndian.decode_encode, Nat.mod_eq_of_lt hlt] at h
      simpa [wire, body, hcarries, windowSize, sendOk, ← hpayload] using h
    · rw [if_neg hother] at hwindow
      have h := Layout.bare hcarries hother hid
      rw [Decoder.idOfBytes_encode] at h
      simpa [wire, body, hcarries, hother, control, ← hpayload, ← hwindow] using h

end Frame

/-! ### Frames and faults -/

/-- A string shows the flag of a frame that carries a payload, its id, and the whole of its length. -/
inductive Announces : Bytes → Flag → Nat → Bytes → Prop
  | intro {flag : Flag} {id length : Bytes} (rest : Bytes) (carries : flag.hasPayload = true)
      (idWidth : id.length = 4) (lengthWidth : length.length = 2) :
      Announces (flag.toByte :: (id ++ (length ++ rest))) flag (LittleEndian.decode length) rest

/-- What is wrong at the front of a string, and what stands behind the byte that shows it. -/
inductive Fault (maxSegment : Nat) : FrameError → Bytes → Bytes → Prop
  | flag {byte : UInt8} (rest : Bytes) (unknown : 8 < byte.toNat) :
      Fault maxSegment (.unknownFlag byte) (byte :: rest) rest
  | length {bytes rest : Bytes} {flag : Flag} {length : Nat} (announces : Announces bytes flag length rest)
      (long : flag.payloadLimit maxSegment < length) :
      Fault maxSegment (.payloadTooLarge length (flag.payloadLimit maxSegment)) bytes rest

namespace Decoder

variable {maxSegment : Nat} {f : Frame} {bytes text part rest : Bytes} {cause : FrameError}

/-- A frame is read exactly where its layout stands in front, with a payload within the limit. -/
theorem run_eq_frame_iff : run maxSegment .start bytes = .frame f rest ↔
    ∃ text, bytes = text ++ rest ∧ f.Layout text ∧ f.Fits maxSegment := by
  constructor
  · intro h
    obtain ⟨hfit, rfl⟩ := wire_of_run h
    rw [run_wire rest hfit, Reading.frame.injEq] at h
    exact ⟨f.wire, rfl, Frame.layout_wire h.1 hfit, hfit⟩
  · rintro ⟨text, rfl, hlayout, hfit⟩
    obtain ⟨rfl, hnormal⟩ := hlayout.eq_wire
    rw [run_wire rest hfit, hnormal]

/-- A frame that is read has a payload exactly if its flag carries one. -/
theorem isSome_payload_of_run (h : run maxSegment .start bytes = .frame f rest) :
    f.payload.isSome = f.flag.hasPayload := by
  obtain ⟨text, -, hlayout, -⟩ := run_eq_frame_iff.1 h
  cases hlayout with
  | payload carries => exact carries.symm
  | credit => rfl
  | bare carries => exact carries.symm

/-- Once the length is there, all that can go wrong has gone wrong. -/
theorem not_error_of_payload {flag : Flag} {id : Int32} {missing : Nat} {got : Bytes} :
    run maxSegment (.inPayload flag id missing got) bytes ≠ .error cause rest := by
  induction bytes generalizing missing got with
  | nil => simp [run]
  | cons b bytes ih =>
    rw [run_cons, step]
    split
    · simp [Progress.onward]
    · exact ih

/-- What goes on behind the id goes wrong with the length only. -/
theorem fault_of_afterId {flag : Flag} {id : Int32}
    (h : (afterId flag id).onward maxSegment bytes = .error cause rest) :
    ∃ length, flag.hasPayload = true ∧ bytes = length ++ rest ∧ length.length = 2 ∧
      flag.payloadLimit maxSegment < LittleEndian.decode length ∧
      cause = .payloadTooLarge (LittleEndian.decode length) (flag.payloadLimit maxSegment) := by
  unfold afterId at h
  split at h
  · rename_i hcarries
    obtain ⟨field, tail, rfl, hlen, hdone⟩ :=
      field_of_settled (.inLength flag id) lengthSize
        (fun field => afterLength maxSegment flag id (LittleEndian.decode field)) (fun _ _ => rfl)
        (by decide) h (by simp)
    rw [List.nil_append, afterLength] at hdone
    split at hdone
    · rename_i hlong
      cases hdone
      exact ⟨field, hcarries, rfl, by simpa [lengthSize] using hlen, hlong, rfl⟩
    · split at hdone
      · cases hdone
      · exact absurd hdone not_error_of_payload
  · split at h
    · obtain ⟨field, tail, rfl, hlen, hdone⟩ :=
        field_of_settled (.inWindow id) windowSize
          (fun field => .frame (.sendOk id (UInt32.ofNat (LittleEndian.decode field)))) (fun _ _ => rfl)
          (by decide) h (by simp)
      cases hdone
    · cases h

theorem run_eq_error_iff : run maxSegment .start bytes = .error cause rest ↔
    Fault maxSegment cause bytes rest := by
  constructor
  · intro h
    rcases bytes with _ | ⟨b, bytes⟩
    · cases h
    rw [run_cons, step] at h
    cases hb : Flag.ofByte? b with
    | none =>
      rw [hb] at h
      cases h
      exact .flag rest ((Flag.ofByte?_eq_none_iff b).1 hb)
    | some flag =>
      rw [hb] at h
      obtain ⟨field, tail, rfl, hlen, hdone⟩ :=
        field_of_settled (.inId flag) 4 (fun field => afterId flag (idOfBytes field)) (fun _ _ => rfl)
          (by decide) h (by simp)
      obtain ⟨length, hcarries, rfl, hlength, hlong, rfl⟩ := fault_of_afterId hdone
      rw [← Flag.toByte_of_ofByte? hb]
      exact .length (.intro rest hcarries (by simpa using hlen) hlength) hlong
  · intro h
    cases h with
    | flag rest unknown => rw [run_cons, step, (Flag.ofByte?_eq_none_iff _).2 unknown]; rfl
    | @length _ _ flag _ announces long =>
      cases announces with
      | @intro _ id length _ carries idWidth lengthWidth =>
        have hid : id ≠ [] := by rintro rfl; cases idWidth
        have hlength : length ≠ [] := by rintro rfl; cases lengthWidth
        rw [run_cons, step, Flag.ofByte?_toByte]
        show run maxSegment (.inId flag []) _ = _
        rw [run_field (.inId flag) 4 (fun field => afterId flag (idOfBytes field)) (fun _ _ => rfl) _
          hid (by simpa using idWidth), List.nil_append, afterId, if_pos carries]
        show run maxSegment (.inLength flag _ []) _ = _
        rw [run_field (.inLength flag _) lengthSize
          (fun field => afterLength maxSegment flag _ (LittleEndian.decode field)) (fun _ _ => rfl) _
          hlength (by simpa [lengthSize] using lengthWidth), List.nil_append, afterLength, if_pos long]
        rfl

/-- A part of the writing of a frame is short of it. -/
theorem run_part (hfit : f.Fits maxSegment) (hpart : part <+: f.wire) (hne : part ≠ f.wire) :
    ∃ d, run maxSegment .start part = .short d := by
  obtain ⟨more, hmore⟩ := hpart
  have hsome : more ≠ [] := by rintro rfl; exact hne (by simpa using hmore)
  have hwhole := run_wire [] hfit
  rw [List.append_nil, ← hmore, run_append] at hwhole
  cases hrun : run maxSegment .start part with
  | short d => exact ⟨d, rfl⟩
  | frame g left => simp [hrun, hsome] at hwhole
  | error cause left => simp [hrun] at hwhole

end Decoder

end StreamMux
