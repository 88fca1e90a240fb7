import Mathlib.Algebra.GroupWithZero.Nat
import StreamMux.Proofs.Story
import StreamMux.Proofs.Traffic

/-! What the windows of a connection keep, whatever the peer sends. No credit is spent that was not
given, no bytes are reported that were not taken, and the readers are given what the receive window
took, in order. A connection that has said that it is closed sends no more data and no more credit. -/

namespace StreamMux

/-! ### Segments and credit -/

/-- The segment that a frame brings. -/
def Frame.segment? (f : Frame) : Option Segment :=
  match f.flag, f.payload with
  | .newMsg, some data => some ⟨data, false⟩
  | .newMsgPart, some data => some ⟨data, true⟩
  | _, _ => none

/-- The credit that a frame brings. -/
def Frame.credit (f : Frame) : Nat := if f.flag = .msgSendOk then f.window.toNat else 0

/-- The segments that frames bring. -/
def segmentsOf (frames : List Frame) : List Segment := frames.filterMap Frame.segment?

/-- The bytes of segments. -/
def bytesOf (segments : List Segment) : Bytes := segments.flatMap (·.data)

/-- The credit that frames bring. -/
def creditOf (frames : List Frame) : Nat := (frames.map Frame.credit).sum

/-- The bytes that a reader is given. -/
def Taken.data : Taken → Bytes
  | .bytes data => data
  | .segment (some s) => s.data
  | .segment none => []

/-- What the reader is given is the end of the stream. -/
def Want.isEnd : Want → Taken → Bool
  | .bytes (_ + 1), .bytes [] => true
  | .segment, .segment none => true
  | _, _ => false

section Append

variable (frames more : List Frame) (segments later : List Segment)

@[simp] theorem segmentsOf_append :
    segmentsOf (frames ++ more) = segmentsOf frames ++ segmentsOf more := List.filterMap_append

@[simp] theorem bytesOf_append : bytesOf (segments ++ later) = bytesOf segments ++ bytesOf later :=
  List.flatMap_append

@[simp] theorem creditOf_append : creditOf (frames ++ more) = creditOf frames + creditOf more := by
  simp [creditOf]

end Append

@[simp] theorem bytesOf_cons (s : Segment) (segments : List Segment) :
    bytesOf (s :: segments) = s.data ++ bytesOf segments := rfl

@[simp] theorem creditOf_single (f : Frame) : creditOf [f] = f.credit := by simp [creditOf]

theorem segment?_of_isSegment {f : Frame} {data : Bytes} {part : Bool}
    (h : View.IsSegment f data part) : f.segment? = some ⟨data, part⟩ := by
  obtain ⟨hflag, hp⟩ := h
  cases part <;> simp [Frame.segment?, hflag, hp]

@[simp] theorem segment?_data (id : Int32) (data : Bytes) (part : Bool) :
    (Frame.data id data part).segment? = some ⟨data, part⟩ := by
  cases part <;> rfl

/-- Only data brings a segment. -/
theorem segment?_eq_none {f : Frame} (h : f.flag.isData = false ∨ f.payload = none) :
    f.segment? = none := by
  unfold Frame.segment?
  rcases h with h | h
  · cases hf : f.flag <;> simp_all [Flag.isData]
  · rw [h]
    cases f.flag <;> rfl

theorem credit_eq_zero {f : Frame} (h : f.flag ≠ .msgSendOk) : f.credit = 0 := if_neg h

/-! ### Dealing segments out -/

/-- From the first list of segments so much was given to readers, in order, that the last list is left.
A reader of bytes takes from one segment, and passes over segments without bytes. -/
inductive Dealt : List Segment → List Taken → List Segment → Prop
  | start (all : List Segment) : Dealt all [] all
  | pass {all rest : List Segment} {given : List Taken} {part : Bool} :
      Dealt all given (⟨[], part⟩ :: rest) → Dealt all given rest
  | bytes {all rest : List Segment} {given : List Taken} {data left : Bytes} {part : Bool} :
      Dealt all given (⟨data ++ left, part⟩ :: rest) →
      Dealt all (given ++ [.bytes data]) (if left = [] then rest else ⟨left, part⟩ :: rest)
  | segment {all rest : List Segment} {given : List Taken} {segment : Segment} :
      Dealt all given (segment :: rest) → Dealt all (given ++ [.segment (some segment)]) rest
  | nothing {all rest : List Segment} {given : List Taken} {taken : Taken} :
      Dealt all given rest → taken = .bytes [] ∨ taken = .segment none →
      Dealt all (given ++ [taken]) rest

namespace Dealt

variable {all more unread : List Segment} {given : List Taken}

/-- Segments that come later are left. -/
theorem append (h : Dealt all given unread) (more : List Segment) :
    Dealt (all ++ more) given (unread ++ more) := by
  induction h with
  | start => exact .start _
  | pass _ ih => exact .pass ih
  | @bytes rest given data left part _ ih =>
    have := ih.bytes
    split at this
    · rename_i hleft
      rwa [if_pos hleft]
    · rename_i hleft
      rwa [if_neg hleft]
  | segment _ ih => exact .segment ih
  | nothing _ ht ih => exact .nothing ih ht

/-- No byte is lost, given twice or changed. -/
theorem bytes_eq (h : Dealt all given unread) :
    bytesOf all = given.flatMap Taken.data ++ bytesOf unread := by
  induction h with
  | start => rfl
  | pass _ ih => exact ih
  | @bytes rest given data left part _ ih =>
    rw [ih]
    split
    · rename_i hleft
      simp [hleft, Taken.data]
    · simp [Taken.data]
  | segment _ ih =>
    rw [ih]
    simp [Taken.data]
  | nothing _ ht ih =>
    rw [ih]
    rcases ht with rfl | rfl <;> simp [Taken.data]

theorem dropWhile (h : Dealt all given unread) :
    Dealt all given (unread.dropWhile (·.data.isEmpty)) := by
  induction unread with
  | nil => exact h
  | cons s unread ih =>
    obtain ⟨data, part⟩ := s
    cases data with
    | nil => exact ih h.pass
    | cons b data => exact h

end Dealt

/-! ### The receive window -/

namespace ReceiveWindow

variable {w w' : ReceiveWindow} {want : Want} {taken : Taken} {answer : Option Taken}

/-- The unread bytes are counted. -/
def Counted (w : ReceiveWindow) : Prop := w.buffered = (bytesOf w.segments).length

theorem bytesOf_dropWhile (segments : List Segment) :
    bytesOf (segments.dropWhile (·.data.isEmpty)) = bytesOf segments := by
  induction segments with
  | nil => rfl
  | cons s segments ih =>
    obtain ⟨data, part⟩ := s
    cases data with
    | nil => exact ih
    | cons b data => rfl

/-- What a look for so many bytes does to the window. -/
theorem read_cases (size : Nat) (w : ReceiveWindow) :
    (w.segments.dropWhile (·.data.isEmpty) = [] ∧
      w.read size = ({ w with segments := [] }, if w.stopped then some [] else none)) ∨
    ∃ data left part rest, w.segments.dropWhile (·.data.isEmpty) = ⟨data ++ left, part⟩ :: rest ∧
      (0 < size → data ≠ []) ∧
      w.read size =
        (w.consume data.length (if left = [] then rest else ⟨left, part⟩ :: rest), some data) := by
  unfold read
  split
  · rename_i h
    exact .inl ⟨h, rfl⟩
  · rename_i front rest h
    refine .inr ⟨front.data.take size, front.data.drop size, front.part, rest, ?_, fun hsize => ?_, ?_⟩
    · rw [List.take_append_drop]
      exact h
    · have hfront : front.data ≠ [] := by
        have := List.head?_dropWhile_not (fun s : Segment => s.data.isEmpty) w.segments
        rw [h] at this
        simpa using this
      simp [List.take_eq_nil_iff, hfront]
      omega
    · simp only [List.isEmpty_iff]

/-- What serving a reader does to the window: it moves bytes from the unread to the consumed ones, gives
them to the reader in order, and gives the end only when it is stopped and read up. -/
theorem serve_spec (hs : w.serve want = (w', answer)) :
    (∃ count, w' = w.consume count w'.segments ∧
      count + (bytesOf w'.segments).length = (bytesOf w.segments).length) ∧
    (∀ all given, Dealt all given w.segments → Dealt all (given ++ answer.toList) w'.segments) ∧
    ∀ taken, answer = some taken → want.isEnd taken = true → w.stopped = true ∧ w'.segments = [] := by
  match want with
  | .bytes 0 =>
    cases hs
    refine ⟨⟨0, rfl, by simp⟩, fun all given h => .nothing h (.inl rfl), fun taken ht hend => ?_⟩
    cases ht
    cases hend
  | .bytes (size + 1) =>
    have hs : ((w.read (size + 1)).1, (w.read (size + 1)).2.map Taken.bytes) = (w', answer) := hs
    rcases w.read_cases (size + 1) with ⟨hnone, hread⟩ | ⟨data, left, part, rest, hfront, hdata, hread⟩
    · have hbytes := bytesOf_dropWhile w.segments
      rw [hnone] at hbytes
      rw [hread] at hs
      cases hs
      refine ⟨⟨0, rfl, by simp [← hbytes]⟩, fun all given h => ?_, fun taken ht hend => ?_⟩
      · have hd := h.dropWhile
        rw [hnone] at hd
        cases w.stopped
        · simpa using hd
        · exact .nothing hd (.inl rfl)
      · cases hstop : w.stopped
        · simp [hstop] at ht
        · exact ⟨rfl, rfl⟩
    · have hbytes := bytesOf_dropWhile w.segments
      rw [hfront] at hbytes
      rw [hread] at hs
      cases hs
      refine ⟨⟨data.length, rfl, ?_⟩, fun all given h => ?_, fun taken ht hend => ?_⟩
      · rw [← hbytes]
        show data.length + (bytesOf (if left = [] then rest else ⟨left, part⟩ :: rest)).length = _
        split
        · rename_i hleft
          simp [hleft]
        · simp
      · have hd := h.dropWhile
        rw [hfront] at hd
        exact .bytes hd
      · cases ht
        rcases data with _ | ⟨b, data⟩
        · exact absurd rfl (hdata (Nat.succ_pos _))
        · cases hend
  | .segment =>
    rcases hw : w.segments with _ | ⟨front, rest⟩
    · simp only [serve, readSegment, hw] at hs
      cases hs
      refine ⟨⟨0, rfl, by simp [hw]⟩, fun all given h => ?_, fun taken ht hend => ?_⟩
      · cases w.stopped
        · simpa [hw] using h
        · rw [hw]
          exact .nothing h (.inr rfl)
      · cases hstop : w.stopped
        · simp [hstop] at ht
        · exact ⟨rfl, hw⟩
    · simp only [serve, readSegment, hw] at hs
      cases hs
      refine ⟨⟨front.data.length, rfl, by simp [consume]⟩, fun all given h => .segment h,
        fun taken ht hend => ?_⟩
      cases ht
      cases hend

theorem write_ok {id : Int32} {data : Bytes} {part : Bool} (h : w.write id data part = .ok w') :
    w.stopped = false ∧
      w' = { w with segments := w.segments ++ [⟨data, part⟩], buffered := w.buffered + data.length } := by
  unfold write at h
  split at h
  · cases h
  · rename_i hstop
    split at h
    · cases h
    · cases h
      exact ⟨by simpa using hstop, rfl⟩

theorem takeCredit_some {threshold : Nat} {credit : UInt32}
    (h : w.takeCredit threshold = (w', some credit)) :
    w' = { w with consumed := 0 } ∧ 0 < w.consumed ∧ credit.toNat = min w.consumed 4294967295 := by
  unfold takeCredit at h
  split at h
  · cases h
  · rename_i hpos
    cases h
    refine ⟨rfl, by omega, ?_⟩
    rw [UInt32.toNat_ofNat']
    omega

end ReceiveWindow

namespace SendWindow

variable {w w' : SendWindow}

theorem acquire_some {want credit : Nat} (h : w.acquire want = (w', some (some credit))) :
    w.closed = false ∧ w'.closed = false ∧ w'.remaining.toNat + credit = w.remaining.toNat := by
  unfold acquire at h
  split at h
  · cases h
  · rename_i hc
    split at h
    · cases h
    · cases h
      have hclosed : w.closed = false := by simpa using hc
      refine ⟨hclosed, hclosed, ?_⟩
      have hlt := w.remaining.toNat_lt
      have hn : (UInt32.ofNat (min want w.remaining.toNat)).toNat = min want w.remaining.toNat := by
        rw [UInt32.toNat_ofNat']
        omega
      have hle : UInt32.ofNat (min want w.remaining.toNat) ≤ w.remaining := by
        rw [UInt32.le_iff_toNat_le, hn]
        omega
      rw [UInt32.toNat_sub_of_le _ _ hle, hn]
      omega

theorem grant_toNat (credit : UInt32) (w : SendWindow) :
    (w.grant credit).remaining.toNat = min (w.remaining.toNat + credit.toNat) 4294967295 := by
  show (UInt32.ofNat _).toNat = _
  rw [UInt32.toNat_ofNat']
  omega

end SendWindow

/-! ### What every story keeps -/

namespace Story

variable {settings : Settings} {ended : Bool} {s s' : Story}

/-- The windows of a connection fit what it has said, heard, taken and given. -/
structure Sound (settings : Settings) (s : Story) : Prop where
  capacity : s.face.receive.capacity = settings.receiveWindow.toNat
  receive_stopped : s.face.receive.stopped = (s.face.closed || s.face.closing)
  send_closed : s.face.send.closed = (s.face.closed || s.face.closing)
  counted : s.face.receive.Counted
  /-- No credit is spent that was not given. -/
  spent : s.face.send.remaining.toNat + (bytesOf (segmentsOf s.said)).length ≤
    settings.receiveWindow.toNat + creditOf s.heard
  /-- Nothing is reported that was not taken. -/
  reported : s.face.receive.buffered + s.face.receive.consumed + creditOf s.said ≤
    (bytesOf s.taken).length
  dealt : Dealt s.taken s.given s.face.receive.segments
  taken_prefix : s.taken <+: segmentsOf s.heard
  taken_all : s.face.closed = false → s.taken = segmentsOf s.heard
  closing : s.face.closing = true → ∃ frame ∈ s.heard, frame.flag = .connClose
  said_closed : ∀ frame ∈ s.said, frame.flag = .connClose → s.face.closed = true
  /-- Nothing is exchanged after the word that the connection is closed. -/
  said_last : s.said.Pairwise fun frame later => frame.flag = .connClose → later.flag.isExchange = false

theorem sound_born_face (id : Int32) (reply : Reply) (said : List Frame)
    (hseg : segmentsOf said = []) (hcredit : creditOf said = 0)
    (hclose : ∀ frame ∈ said, frame.flag ≠ .connClose) :
    Sound settings { face := .make settings id reply, said } where
  capacity := rfl
  receive_stopped := rfl
  send_closed := rfl
  counted := rfl
  spent := by simp [Face.make, hseg, bytesOf, creditOf]
  reported := by simp [Face.make, hcredit]
  dealt := .start _
  taken_prefix := List.nil_prefix
  taken_all _ := rfl
  closing h := by cases h
  said_closed frame hf h := absurd h (hclose frame hf)
  said_last := List.pairwise_iff_forall_sublist.2 fun hs h =>
    absurd h (hclose _ (hs.subset List.mem_cons_self))

namespace Sound

theorem stop_face (h : s.Sound settings) (g : Face)
    (hr : g.receive = { s.face.receive with stopped := true })
    (hs : g.send = { s.face.send with closed := true }) (hc : s.face.closed = true → g.closed = true)
    (hg : g.closed = true ∨ g.closing = true)
    (hcg : g.closing = true → s.face.closing = true ∨ ∃ frame ∈ s.heard, frame.flag = .connClose)
    (hopen : g.closed = false → s.face.closed = false) :
    Sound settings { s with face := g } where
  capacity := by rw [show _ = _ from congrArg ReceiveWindow.capacity hr]; exact h.capacity
  receive_stopped := by
    rw [show _ = _ from congrArg ReceiveWindow.stopped hr]
    rcases hg with hg | hg <;> simp [hg]
  send_closed := by
    rw [show _ = _ from congrArg SendWindow.closed hs]
    rcases hg with hg | hg <;> simp [hg]
  counted := by
    show g.receive.Counted
    rw [hr]
    exact h.counted
  spent := by
    show g.send.remaining.toNat + _ ≤ _
    rw [hs]
    exact h.spent
  reported := by
    show g.receive.buffered + g.receive.consumed + _ ≤ _
    rw [hr]
    exact h.reported
  dealt := by
    show Dealt _ _ g.receive.segments
    rw [hr]
    exact h.dealt
  taken_prefix := h.taken_prefix
  taken_all hc := h.taken_all (hopen hc)
  closing hc := (hcg hc).elim h.closing id
  said_closed frame hf hflag := hc (h.said_closed frame hf hflag)
  said_last := h.said_last

/-- A frame without data and credit is queued. -/
theorem say (h : s.Sound settings) {frame : Frame} (hseg : frame.segment? = none)
    (hcredit : frame.flag ≠ .msgSendOk) (hx : frame.flag.isExchange = false)
    (hclose : frame.flag = .connClose → s.face.closed = true) :
    (s.say ended frame).Sound settings := by
  cases ended
  · exact { h with
      spent := by simpa [Story.say, segmentsOf, hseg] using h.spent
      reported := by simpa [Story.say, credit_eq_zero hcredit] using h.reported
      said_closed := fun f hf hflag => by
        rcases List.mem_append.1 hf with hf | hf
        · exact h.said_closed f hf hflag
        · obtain rfl := List.mem_singleton.1 hf
          exact hclose hflag
      said_last := by
        refine List.pairwise_append.2 ⟨h.said_last, List.pairwise_singleton .., ?_⟩
        intro f _ g hg _
        rwa [List.mem_singleton.1 hg] }
  · exact h

/-- A frame without data is heard. -/
theorem hear (h : s.Sound settings) {frame : Frame} (hseg : frame.segment? = none) :
    (s.hear frame).Sound settings :=
  { h with
    spent := by
      have := h.spent
      simp only [Story.hear, creditOf_append]
      omega
    taken_prefix := by simpa [Story.hear, segmentsOf, hseg] using h.taken_prefix
    taken_all := fun hc => by simpa [Story.hear, segmentsOf, hseg] using h.taken_all hc
    closing := fun hc => by
      obtain ⟨f, hf, hflag⟩ := h.closing hc
      exact ⟨f, List.mem_append_left _ hf, hflag⟩ }

theorem close_face (h : s.Sound settings) : Sound settings { s with face := s.face.close } :=
  h.stop_face _ rfl rfl (fun _ => rfl) (.inl rfl) .inl fun hc => by cases hc

theorem shut_face (h : s.Sound settings) : Sound settings { s with face := s.face.shut } :=
  h.stop_face _ rfl rfl (fun _ => rfl) (.inl rfl) .inl fun hc => by cases hc

theorem leave (h : s.Sound settings) : (s.leave ended).Sound settings := by
  unfold Story.leave
  split
  · exact h.close_face
  · exact h.close_face.say rfl (by simp [Frame.control]) rfl fun _ => rfl

/-- What is exchanged is said before the word that the connection is closed. -/
theorem said_exchange (h : s.Sound settings) (hopen : s.face.closed = false) (frame : Frame)
    (hf : frame.flag ≠ .connClose) :
    (∀ f ∈ s.said ++ [frame], f.flag = .connClose → s.face.closed = true) ∧
      (s.said ++ [frame]).Pairwise fun f g => f.flag = .connClose → g.flag.isExchange = false := by
  have hno (f : Frame) (hm : f ∈ s.said) : f.flag ≠ .connClose := fun hflag => by
    rw [h.said_closed f hm hflag] at hopen
    cases hopen
  refine ⟨fun f hm hflag => ?_, List.pairwise_append.2 ⟨h.said_last, List.pairwise_singleton .., ?_⟩⟩
  · rcases List.mem_append.1 hm with hm | hm
    · exact absurd hflag (hno f hm)
    · rw [List.mem_singleton.1 hm] at hflag
      exact absurd hflag hf
  · intro f hm g _ hflag
    exact absurd hflag (hno f hm)

end Sound

theorem Born.sound (h : Born settings s) : s.Sound settings := by
  cases h with
  | own id call => exact sound_born_face id _ _ rfl rfl (by simp [Frame.control])
  | peer id => exact sound_born_face id _ [] rfl rfl (by simp)
  | late id => exact (sound_born_face id _ [] rfl rfl (by simp)).shut_face

/-- A reader is served, or waits. -/
theorem Sound.serve (h : s.Sound settings) {want : Want} {receive : ReceiveWindow}
    {answer : Option Taken} (hs : s.face.receive.serve want = (receive, answer)) :
    Sound settings { s with face := { s.face with receive }, given := s.given ++ answer.toList } := by
  obtain ⟨⟨count, hreceive, hcount⟩, hdealt, -⟩ := ReceiveWindow.serve_spec hs
  have hcounted := h.counted
  have hreported := h.reported
  unfold ReceiveWindow.Counted at hcounted
  exact { h with
    capacity := by
      show receive.capacity = _
      rw [hreceive]
      exact h.capacity
    receive_stopped := by
      show receive.stopped = _
      rw [hreceive]
      exact h.receive_stopped
    counted := by
      show receive.buffered = _
      rw [hreceive]
      simp only [ReceiveWindow.consume]
      omega
    reported := by
      show receive.buffered + receive.consumed + _ ≤ _
      rw [hreceive]
      simp only [ReceiveWindow.consume]
      omega
    dealt := hdealt _ _ h.dealt }

/-- What was read is reported. -/
theorem Sound.report (h : s.Sound settings) {receive : ReceiveWindow} {credit : UInt32}
    (hclosed : s.face.closed = false)
    (hc : s.face.receive.takeCredit settings.maxSegment = (receive, some credit)) :
    Sound settings (({ s with face := { s.face with receive } }).say ended (.sendOk s.face.id credit)) := by
  obtain ⟨rfl, -, hcredit⟩ := ReceiveWindow.takeCredit_some hc
  have hreported := h.reported
  have hdrop : Sound settings
      { s with face := { s.face with receive := { s.face.receive with consumed := 0 } } } :=
    { h with reported := by simp only; omega }
  cases ended
  · obtain ⟨hsaid, hlast⟩ := h.said_exchange hclosed (.sendOk s.face.id credit) (by simp [Frame.sendOk])
    exact { hdrop with
      spent := by
        simp only [Story.say, Bool.false_eq_true, ↓reduceIte, segmentsOf_append]
        rw [show segmentsOf [Frame.sendOk s.face.id credit] = [] from rfl, List.append_nil]
        exact h.spent
      reported := by
        have : (Frame.sendOk s.face.id credit).credit = credit.toNat := rfl
        simp only [Story.say, Bool.false_eq_true, ↓reduceIte, creditOf_append, creditOf_single, this]
        omega
      said_closed := hsaid
      said_last := hlast }
  · exact hdrop

/-- A segment spends the credit that it takes. -/
theorem Sound.send (h : s.Sound settings) {want credit : Nat} {data : Bytes} {part : Bool} {send : SendWindow}
    (ha : s.face.send.acquire want = (send, some (some credit))) (hlen : data.length = credit) :
    Sound settings (({ s with face := { s.face with send } }).say false (.data s.face.id data part)) := by
  obtain ⟨hopen, hopen', hrem⟩ := SendWindow.acquire_some ha
  have hflags := h.send_closed
  rw [hopen] at hflags
  have hclosed : s.face.closed = false := by
    cases hc : s.face.closed
    · rfl
    · simp [hc] at hflags
  obtain ⟨hsaid, hlast⟩ := h.said_exchange hclosed (.data s.face.id data part) (by
    cases part <;> simp [Frame.data])
  have hcredit : (Frame.data s.face.id data part).credit = 0 := by cases part <;> rfl
  have hspent := h.spent
  exact { h with
    send_closed := hopen'.trans hflags
    spent := by
      simp only [Story.say, Bool.false_eq_true, ↓reduceIte, segmentsOf_append, bytesOf_append,
        List.length_append]
      rw [show segmentsOf [Frame.data s.face.id data part] = [⟨data, part⟩] by simp [segmentsOf]]
      simp only [bytesOf, List.flatMap_cons, List.flatMap_nil, List.append_nil]
      simp only [bytesOf] at hspent
      omega
    reported := by simpa [Story.say, hcredit] using h.reported
    said_closed := hsaid
    said_last := hlast }

theorem Sound.waste (h : s.Sound settings) {want credit : Nat} {send : SendWindow}
    (ha : s.face.send.acquire want = (send, some (some credit))) :
    Sound settings { s with face := { s.face with send } } := by
  obtain ⟨hopen, hopen', hrem⟩ := SendWindow.acquire_some ha
  have hspent := h.spent
  exact { h with
    send_closed := hopen'.trans (hopen.symm.trans h.send_closed)
    spent := by simp only; omega }

/-- A segment that comes in lies behind all that came before. -/
theorem Sound.enter (h : s.Sound settings) {frame : Frame} {data : Bytes} {part : Bool} {receive : ReceiveWindow}
    (hopen : s.face.closed = false) (hseg : View.IsSegment frame data part)
    (hw : s.face.receive.write s.face.id data part = .ok receive) :
    Sound settings
      { s.hear frame with face := { s.face with receive }, taken := s.taken ++ [⟨data, part⟩] } := by
  obtain ⟨hstop, rfl⟩ := ReceiveWindow.write_ok hw
  have hone : segmentsOf [frame] = [⟨data, part⟩] := by
    simp [segmentsOf, segment?_of_isSegment hseg]
  have hall := h.taken_all hopen
  have hspent := h.spent
  have hreported := h.reported
  have hcounted := h.counted
  unfold ReceiveWindow.Counted at hcounted
  exact { h with
    counted := by
      simp only [ReceiveWindow.Counted, bytesOf_append, List.length_append, hcounted]
      simp [bytesOf]
    spent := by
      simp only [Story.hear, creditOf_append]
      omega
    reported := by
      simp only [Story.hear, bytesOf_append, List.length_append]
      simp only [bytesOf, List.flatMap_cons, List.flatMap_nil, List.append_nil] at hreported ⊢
      omega
    dealt := h.dealt.append _
    taken_prefix := by
      simp only [Story.hear, segmentsOf_append, hone, hall]
      exact List.prefix_refl _
    taken_all := fun _ => by simp only [Story.hear, segmentsOf_append, hone, hall]
    closing := fun hc => by
      obtain ⟨f, hf, hflag⟩ := h.closing hc
      exact ⟨f, List.mem_append_left _ hf, hflag⟩ }

/-- A segment that the window refuses closes the connection. -/
theorem Sound.overflow (h : s.Sound settings) (frame : Frame) : Sound settings ((s.hear frame).leave ended) := by
  have hspent := h.spent
  have hclosed : Sound settings { s.hear frame with face := s.face.close } :=
    { h.close_face with
      spent := by
        simp only [Story.hear, creditOf_append]
        show s.face.send.remaining.toNat + _ ≤ _
        omega
      taken_prefix := by
        simp only [Story.hear, segmentsOf_append]
        exact h.taken_prefix.trans (List.prefix_append ..)
      taken_all := fun hc => by cases hc
      closing := fun hc => by
        obtain ⟨f, hf, hflag⟩ := h.closing hc
        exact ⟨f, List.mem_append_left _ hf, hflag⟩ }
  unfold Story.leave
  split
  · exact hclosed
  · exact hclosed.say rfl (by simp [Frame.control]) rfl fun _ => rfl

/-- A frame that is no segment is heard. -/
theorem Sound.hear_of_flag (h : s.Sound settings) {frame : Frame} (hflag : frame.flag.isData = false) :
    Sound settings (s.hear frame) := h.hear (segment?_eq_none (.inl hflag))

theorem Sound.grant (h : s.Sound settings) {frame : Frame} (hflag : frame.flag = .msgSendOk) :
    Sound settings { s.hear frame with face := { s.face with send := s.face.send.grant frame.window } } := by
  have hspent := h.spent
  have hcredit : frame.credit = frame.window.toNat := by simp [Frame.credit, hflag]
  have hbare : frame.flag.isData = false := by rw [hflag]; rfl
  exact { h.hear_of_flag hbare with
    spent := by
      simp only [Story.hear, creditOf_append, creditOf_single, hcredit, SendWindow.grant_toNat]
      omega }

theorem Sound.farewell (h : s.Sound settings) {frame : Frame} (hflag : frame.flag = .connClose) :
    Sound settings { s.hear frame with face := s.face.closeByPeer } := by
  have hbare : frame.flag.isData = false := by rw [hflag]; rfl
  have hheard := h.hear_of_flag hbare
  refine hheard.stop_face s.face.closeByPeer rfl rfl id (.inr rfl) (fun _ => .inr ⟨frame, ?_, hflag⟩) id
  simp [Story.hear]

theorem Step.sound (hs : Step settings ended s s') (h : s.Sound settings) : s'.Sound settings := by
  cases hs with
  | serve hs => exact h.serve hs
  | look hs => simpa using h.serve hs
  | report hclosed hclosing hc => exact h.report hclosed hc
  | send running ha hlen => exact running ▸ h.send ha hlen
  | waste hended ha => exact h.waste ha
  | enter hid hopen hseg hw => exact h.enter hopen hseg hw
  | overflow => exact h.overflow _
  | hollow hid hopen hflag hp => exact h.hear (segment?_eq_none (.inr hp))
  | @answer frame accepted hid hopen hflag =>
    have hbare : frame.flag.isData = false := by rw [hflag]; cases accepted <;> rfl
    exact { h.hear_of_flag hbare with }
  | grant hid hopen hflag => exact h.grant hflag
  | farewell hid hopen hflag => exact h.farewell hflag
  | leave hopen => exact h.leave
  | shut => exact h.shut_face
  | deny => exact h.shut_face.say rfl (by simp [Frame.control]) rfl (by simp [Frame.control])
  | confirm => exact h.say rfl (by simp [Frame.control]) rfl (by simp [Frame.control])

/-! ### The end of a stream -/

/-- What the end of a stream leaves: the receive window takes nothing more, and holds nothing more. -/
def Drained (s : Story) : Prop := s.face.receive.stopped = true ∧ s.face.receive.segments = []

theorem Step.drained (hs : Step settings ended s s') (h : s.Drained) : s'.Drained := by
  obtain ⟨hstop, hempty⟩ := h
  have hserve {want : Want} {receive : ReceiveWindow} {answer : Option Taken}
      (hs : s.face.receive.serve want = (receive, answer)) :
      receive.stopped = true ∧ receive.segments = [] := by
    obtain ⟨⟨count, hreceive, hcount⟩, hdealt, -⟩ := ReceiveWindow.serve_spec hs
    refine ⟨by rw [hreceive]; exact hstop, ?_⟩
    match want with
    | .bytes 0 => cases hs; exact hempty
    | .bytes (size + 1) =>
      simp only [ReceiveWindow.serve, ReceiveWindow.read, hempty, List.dropWhile_nil] at hs
      cases hs
      rfl
    | .segment =>
      simp only [ReceiveWindow.serve, ReceiveWindow.readSegment, hempty] at hs
      cases hs
      exact hempty
  have hsay {frame : Frame} {t : Story} (ht : t.Drained) : (t.say ended frame).Drained := by
    cases ended <;> exact ht
  have hleave {t : Story} (ht : t.face.receive.segments = []) : (t.leave ended).Drained := by
    unfold Story.leave
    split
    · exact ⟨rfl, ht⟩
    · exact hsay ⟨rfl, ht⟩
  cases hs with
  | serve hs => exact hserve hs
  | look hs => exact hserve hs
  | report hclosed hclosing hc =>
    obtain ⟨rfl, -⟩ := ReceiveWindow.takeCredit_some hc
    exact hsay ⟨hstop, hempty⟩
  | send => exact hsay ⟨hstop, hempty⟩
  | waste | hollow | answer | grant => exact ⟨hstop, hempty⟩
  | enter hid hopen hseg hw =>
    rw [(ReceiveWindow.write_ok hw).1] at hstop
    cases hstop
  | overflow => exact hleave hempty
  | farewell => exact ⟨rfl, hempty⟩
  | leave => exact hleave hempty
  | shut => exact ⟨rfl, hempty⟩
  | deny => exact hsay ⟨rfl, hempty⟩
  | confirm => exact hsay ⟨hstop, hempty⟩

/-! ### Exact accounts -/

/-- All credit is spent on data, or left. -/
def Exact (settings : Settings) (s : Story) : Prop :=
  s.face.send.remaining.toNat + (bytesOf (segmentsOf s.said)).length =
    settings.receiveWindow.toNat + creditOf s.heard

/-- All bytes that were taken are unread, or consumed, or reported. -/
def Settled (s : Story) : Prop :=
  s.face.receive.buffered + s.face.receive.consumed + creditOf s.said = (bytesOf s.taken).length

theorem Born.exact (h : Born settings s) : s.Exact settings := by cases h <;> rfl

theorem Born.settled (h : Born settings s) : s.Settled := by cases h <;> rfl

theorem exact_say {ended : Bool} {frame : Frame} (h : s.Exact settings)
    (hseg : frame.segment? = none) : (s.say ended frame).Exact settings := by
  cases ended
  · simpa [Story.say, Exact, segmentsOf, hseg] using h
  · exact h

theorem settled_say {ended : Bool} {frame : Frame} (h : s.Settled) (hcredit : frame.flag ≠ .msgSendOk) :
    (s.say ended frame).Settled := by
  cases ended
  · simpa [Story.say, Settled, credit_eq_zero hcredit] using h
  · exact h

/-- While the session runs, the account of the credit stays exact if no grant is cut off. -/
theorem Step.exact (hs : Step settings false s s') (h : s.Exact settings)
    (hfit : ∀ frame, s'.heard = s.heard ++ [frame] → frame.flag = .msgSendOk →
      s.face.send.remaining.toNat + frame.window.toNat ≤ 4294967295) : s'.Exact settings := by
  have hleave {t : Story} (ht : t.Exact settings) : (t.leave false).Exact settings := by
    unfold Story.leave
    split
    · exact ht
    · exact exact_say (s := { t with face := t.face.close }) ht rfl
  have hhear {frame : Frame} (hflag : frame.flag ≠ .msgSendOk) : (s.hear frame).Exact settings := by
    simpa [Story.hear, Exact, credit_eq_zero hflag] using h
  cases hs with
  | serve | look => exact h
  | report => exact exact_say (s := { s with face := _ }) h rfl
  | @send want credit data part send running ha hlen =>
    obtain ⟨-, -, hrem⟩ := SendWindow.acquire_some ha
    unfold Exact at h ⊢
    simp only [Story.say, Bool.false_eq_true, ↓reduceIte, segmentsOf_append, bytesOf_append,
      List.length_append]
    rw [show segmentsOf [Frame.data s.face.id data part] = [⟨data, part⟩] by simp [segmentsOf]]
    simp only [bytesOf_cons, List.length_append]
    simp only [bytesOf, List.flatMap_nil, List.length_nil]
    simp only [bytesOf] at h
    omega
  | waste hended => cases hended
  | @enter frame data part receive hid hopen hseg hw =>
    exact hhear (by rw [hseg.1]; cases part <;> simp)
  | @overflow frame data part cause hid hopen hseg hw =>
    exact hleave (hhear (by rw [hseg.1]; cases part <;> simp))
  | hollow hid hopen hflag hp => exact hhear fun hf => by rw [hf] at hflag; cases hflag
  | @answer frame accepted hid hopen hflag => exact hhear (by rw [hflag]; cases accepted <;> simp)
  | @grant frame hid hopen hflag =>
    have := hfit frame rfl hflag
    have hcredit : frame.credit = frame.window.toNat := by simp [Frame.credit, hflag]
    unfold Exact at h ⊢
    simp only [Story.hear, creditOf_append, creditOf_single, hcredit, SendWindow.grant_toNat]
    omega
  | farewell hid hopen hflag => exact hhear (by rw [hflag]; simp)
  | leave => exact hleave h
  | shut => exact h
  | deny => exact exact_say (s := { s with face := _ }) h rfl
  | confirm => exact exact_say h rfl

/-- While the session runs, the account of the bytes stays exact if no report is cut off. -/
theorem Step.settled (hs : Step settings false s s') (hsound : s.Sound settings) (h : s.Settled)
    (hfit : s.face.receive.consumed ≤ 4294967295) : s'.Settled := by
  have hleave {t : Story} (ht : t.Settled) : (t.leave false).Settled := by
    unfold Story.leave
    split
    · exact ht
    · exact settled_say (s := { t with face := t.face.close }) ht (by simp [Frame.control])
  have hserve {want : Want} {receive : ReceiveWindow} {answer : Option Taken}
      (hs : s.face.receive.serve want = (receive, answer)) :
      receive.buffered + receive.consumed + creditOf s.said = (bytesOf s.taken).length := by
    obtain ⟨⟨count, hreceive, hcount⟩, -⟩ := ReceiveWindow.serve_spec hs
    have hcounted := hsound.counted
    unfold ReceiveWindow.Counted at hcounted
    unfold Settled at h
    rw [hreceive]
    simp only [ReceiveWindow.consume]
    omega
  cases hs with
  | serve hs => exact hserve hs
  | look hs => exact hserve hs
  | @report receive credit hclosed hclosing hc =>
    obtain ⟨rfl, -, hcredit⟩ := ReceiveWindow.takeCredit_some hc
    have hframe : (Frame.sendOk s.face.id credit).credit = credit.toNat := rfl
    unfold Settled at h ⊢
    simp only [Story.say, Bool.false_eq_true, ↓reduceIte, creditOf_append, creditOf_single, hframe]
    omega
  | @send want credit data part => exact settled_say (s := { s with face := _ }) h (by
      cases part <;> simp [Frame.data])
  | waste hended => cases hended
  | @enter frame data part receive hid hopen hseg hw =>
    obtain ⟨-, rfl⟩ := ReceiveWindow.write_ok hw
    unfold Settled at h ⊢
    simp only [Story.hear, bytesOf_append, List.length_append]
    simp only [bytesOf, List.flatMap_cons, List.flatMap_nil, List.append_nil] at h ⊢
    omega
  | overflow => exact hleave h
  | hollow | answer | grant | farewell => exact h
  | leave => exact hleave h
  | shut => exact h
  | deny => exact settled_say (s := { s with face := _ }) h (by simp [Frame.control])
  | confirm => exact settled_say h (by simp [Frame.control])

/-! ### Histories -/

/-- A connection keeps its id, stays closed once it is, and hears at most one frame in a step. -/
theorem Step.keeps (hs : Step settings ended s s') :
    s'.face.id = s.face.id ∧ (s.face.closed = true → s'.face.closed = true) ∧
      (s'.heard = s.heard ∨ s.face.closed = false ∧
        ∃ frame, frame.id = s.face.id ∧ s'.heard = s.heard ++ [frame]) := by
  cases hs with
  | serve | look | waste | shut => exact ⟨rfl, fun h => by simp_all [Face.shut, Face.close], .inl rfl⟩
  | report | send | confirm | deny =>
    rw [face_say, heard_say]
    exact ⟨rfl, fun h => by simp_all [Face.shut, Face.close], .inl rfl⟩
  | enter hid hopen | hollow hid hopen | answer hid hopen | grant hid hopen | farewell hid hopen =>
    exact ⟨rfl, id, .inr ⟨hopen, _, hid, rfl⟩⟩
  | overflow hid hopen =>
    rw [face_leave, heard_leave]
    exact ⟨rfl, fun _ => rfl, .inr ⟨hopen, _, hid, rfl⟩⟩
  | leave =>
    rw [face_leave, heard_leave]
    exact ⟨rfl, fun _ => rfl, .inl rfl⟩

end Story

end StreamMux
