import Mathlib.Algebra.Group.Nat.Defs
import StreamMux.Wire.Decoder

/-! The decoder undoes the writing of a frame: fed with the bytes of a frame and whatever follows them,
it gives the frame as its reader sees it, and stops in front of what follows. -/

namespace StreamMux

/-! ### Numbers -/

namespace LittleEndian

/-- Writing keeps the number modulo the width. -/
theorem decode_encode (width n : Nat) : decode (encode width n) = n % 256 ^ width := by
  induction width generalizing n with
  | zero => simp [encode, decode, Nat.mod_one]
  | succ width ih =>
    rw [encode, decode, ih, Nat.pow_succ', Nat.mod_mul]
    simp

theorem decode_lt (bs : Bytes) : decode bs < 256 ^ bs.length := by
  induction bs with
  | nil => simp [decode]
  | cons b bs ih =>
    have hb := b.toNat_lt
    rw [decode, List.length_cons, Nat.pow_succ']
    omega

end LittleEndian

namespace Decoder

/-- How reading ends after the bytes that led to this progress. -/
def Progress.onward (maxSegment : Nat) (rest : Bytes) : Progress → Reading
  | .more d => run maxSegment d rest
  | .frame f => .frame f rest
  | .error cause => .error cause rest

variable {maxSegment : Nat}

theorem run_cons (d : Decoder) (byte : UInt8) (rest : Bytes) :
    run maxSegment d (byte :: rest) = (d.step maxSegment byte).onward maxSegment rest := rfl

/-! ### Fields -/

/-- The last bytes of a field of a fixed width, at whatever point of it the decoder stands. -/
theorem run_field (place : Bytes → Decoder) (width : Nat) (done : Bytes → Progress)
    (hstep : ∀ got byte, (place got).step maxSegment byte =
      if (got ++ [byte]).length < width then .more (place (got ++ [byte])) else done (got ++ [byte]))
    {got field : Bytes} (rest : Bytes) (hne : field ≠ []) (hlen : got.length + field.length = width) :
    run maxSegment (place got) (field ++ rest) = (done (got ++ field)).onward maxSegment rest := by
  induction field generalizing got with
  | nil => exact absurd rfl hne
  | cons b field ih =>
    rw [List.cons_append, run_cons, hstep]
    simp only [List.length_append, List.length_cons, List.length_nil] at hlen ⊢
    rcases field with _ | ⟨b', field⟩
    · rw [if_neg (by simp only [List.length_nil] at hlen; omega)]
      rfl
    · rw [if_pos (by simp only [List.length_cons] at hlen; omega)]
      have hlen' : (got ++ [b]).length + (b' :: field).length = width := by
        simp only [List.length_append, List.length_cons, List.length_nil] at hlen ⊢
        omega
      show run maxSegment (place (got ++ [b])) _ = _
      rw [ih (by simp) hlen', List.append_assoc, List.singleton_append]

/-- The last bytes of the payload. -/
theorem run_inPayload (flag : Flag) (id : Int32) {got payload : Bytes} (rest : Bytes)
    (hne : payload ≠ []) :
    run maxSegment (.inPayload flag id payload.length got) (payload ++ rest) =
      .frame { flag, id, payload := some (got.reverse ++ payload) } rest := by
  induction payload generalizing got with
  | nil => exact absurd rfl hne
  | cons b payload ih =>
    rw [List.cons_append, run_cons, step]
    rcases payload with _ | ⟨b', payload⟩
    · rw [if_pos (by simp)]
      simp [Progress.onward]
    · rw [if_neg (by simp)]
      show run maxSegment (.inPayload flag id ((b' :: payload).length) (b :: got)) _ = _
      rw [ih (by simp)]
      simp

theorem idOfBytes_encode (id : Int32) : idOfBytes (LittleEndian.encode 4 id.toUInt32.toNat) = id := by
  have hlt : id.toUInt32.toNat < 256 ^ 4 := id.toUInt32.toNat_lt
  rw [idOfBytes, LittleEndian.decode_encode, Nat.mod_eq_of_lt hlt]
  simp

/-! ### Frames -/

/-- Reading the bytes of a frame whose payload is within its limit. -/
theorem run_wire {f : Frame} (rest : Bytes)
    (hfit : f.flag.hasPayload = true → f.bytes.length ≤ f.flag.payloadLimit maxSegment) :
    run maxSegment .start (f.wire ++ rest) = .frame f.normal rest := by
  obtain ⟨flag, id, payload, window⟩ := f
  have hid : (LittleEndian.encode 4 id.toUInt32.toNat) ≠ [] := by
    intro h
    have := LittleEndian.length_encode 4 id.toUInt32.toNat
    rw [h] at this
    cases this
  simp only [Frame.wire, List.cons_append, List.append_assoc]
  rw [run_cons, step, Flag.ofByte?_toByte]
  show run maxSegment (.inId flag []) _ = _
  rw [run_field (.inId flag) 4 (fun field => afterId flag (idOfBytes field)) (fun _ _ => rfl) _
    hid (by simp), List.nil_append,
    idOfBytes_encode, afterId]
  cases hp : flag.hasPayload
  · by_cases hok : flag = .msgSendOk
    · subst hok
      have hw : LittleEndian.encode windowSize window.toNat ≠ [] := by
        simp [windowSize, LittleEndian.encode]
      have hlt : window.toNat < 256 ^ windowSize := window.toNat_lt
      simp only [Frame.body, hp, Bool.false_eq_true, ↓reduceIte, Frame.normal]
      show run maxSegment (.inWindow id []) _ = _
      rw [run_field (.inWindow id) windowSize
        (fun field => .frame (.sendOk id (UInt32.ofNat (LittleEndian.decode field))))
        (fun _ _ => rfl) _ hw (by simp), List.nil_append, LittleEndian.decode_encode,
        Nat.mod_eq_of_lt hlt]
      simp [Frame.sendOk, Progress.onward]
    · simp only [Frame.body, hp, hok, Bool.false_eq_true, ↓reduceIte, Frame.normal, List.nil_append]
      rfl
  · have hlimit := hfit hp
    have hmax := Flag.payloadLimit_le maxSegment flag
    simp only [Frame.bytes] at hlimit
    have hlt : (payload.getD []).length < 256 ^ lengthSize := by
      simp only [maxPayload, lengthSize] at hmax ⊢
      omega
    have hl : LittleEndian.encode lengthSize (payload.getD []).length ≠ [] := by
      simp [lengthSize, LittleEndian.encode]
    have hok : flag ≠ .msgSendOk := by rintro rfl; cases hp
    simp only [Frame.body, Frame.bytes, hp, hok, ↓reduceIte, Frame.normal, List.append_assoc]
    show run maxSegment (.inLength flag id []) _ = _
    rw [run_field (.inLength flag id) lengthSize
      (fun field => afterLength maxSegment flag id (LittleEndian.decode field))
      (fun _ _ => rfl) _ hl (by simp), List.nil_append, LittleEndian.decode_encode,
      Nat.mod_eq_of_lt hlt, afterLength, if_neg (by omega)]
    by_cases hz : (payload.getD []).length = 0
    · rw [if_pos hz, List.length_eq_zero_iff.1 hz]
      rfl
    · rw [if_neg hz]
      show run maxSegment (.inPayload flag id (payload.getD []).length []) _ = _
      rw [run_inPayload flag id rest (fun h => hz (by rw [h]; rfl))]
      simp

/-- What is written is read back. -/
theorem run_of_encode {f : Frame} {bytes : Bytes} (h : f.encode maxSegment = .ok bytes)
    (rest : Bytes) : bytes = f.wire ∧ run maxSegment .start (bytes ++ rest) = .frame f.normal rest := by
  unfold Frame.encode at h
  split at h
  · cases h
  · rename_i hfit
    cases h
    refine ⟨rfl, run_wire rest fun hp => ?_⟩
    rw [not_and, Nat.not_lt] at hfit
    exact hfit hp

end Decoder

end StreamMux
