import StreamMux.Proofs.Silence
import StreamMux.Proofs.Spending
import StreamMux.Session.Strands

/-! What is said of a connection whose users run at the same time. Between the last look that a strand takes at
a flag or a window and the push of its frame the connection may be closed, on this side or by the peer, and what
the strand has in hand is queued all the same. Nothing else is: from the moment at which a connection is closed
and its send window with it, only the strands between these two accesses still speak, once each. -/

namespace StreamMux

/-- What a connection says in its life. -/
inductive Voice
  | data
  | credit
  | close
  deriving DecidableEq

def Frame.voice? (f : Frame) : Option Voice :=
  match f.flag with
  | .newMsg | .newMsgPart => some .data
  | .msgSendOk => some .credit
  | .connClose => some .close
  | _ => none

theorem voice?_data (id : Int32) (data : Bytes) (part : Bool) : (Frame.data id data part).voice? = some .data := by
  cases part <;> rfl

namespace Strand

/-- What a strand says even if the connection is closed now: it has taken its last look. `closing` tells whether
the peer has closed. -/
def bears (closing : Bool) : Strand → Option Voice
  | .write .. | .writeOn .. | .takeCredit .. | .read .. | .takeData .. | .rest .. | .report => none
  | .send .. | .queueSegment .. => some .data
  | .reportOn => if closing then none else some .credit
  | .settle | .sendReport _ | .queueReport _ => some .credit
  | .close _ | .stopReads _ | .stopWrites _ | .closeOn | .done => none
  | .sendClose | .queueClose => some .close

/-- The strand has marked the connection as closed on this side, and has not told the peer yet. -/
def owesClose : Strand → Bool
  | .stopReads .here | .stopWrites .here | .closeOn | .sendClose | .queueClose => true
  | _ => false

variable {x : Strand} {closing closing' : Bool} {v : Voice}

@[simp] theorem bears_done : Strand.done.bears closing = none := rfl

theorem bears_mono (h : closing = true → closing' = true) (hx : x.bears closing' = some v) :
    x.bears closing = some v := by
  cases x <;> simp_all [bears]

theorem isWriting_of_bears (h : x.bears closing = some .data) : x.isWriting = true := by
  cases x <;> simp_all [bears, isWriting]

theorem owesClose_of_bears (h : x.bears closing = some .close) : x.owesClose = true := by
  cases x <;> simp_all [bears, owesClose]

end Strand

/-- The word that the connection is closed was queued before what comes later. -/
def Said.InTurn (earlier later : Said) : Prop :=
  earlier.frame.flag = .connClose → ∀ i j, earlier.place = some i → later.place = some j → i < j

namespace Parley

variable {p q : Parley} {x y : Strand} {frame : Frame} {v : Voice}

/-- How often the connection has said something. -/
def said (v : Voice) (p : Parley) : Nat := p.queued.countP (·.voice? = some v)

/-- The connection is closed on one side, and gives no more credit to writes. -/
def Hushed (p : Parley) : Prop :=
  (p.conn.closed = true ∨ p.conn.closing = true) ∧ p.conn.outflow.state.closed = true

/-! ### What a step leaves -/

/-- What is closed stays so. -/
structure Keeps (p q : Parley) : Prop where
  closed : p.conn.closed = true → q.conn.closed = true
  closing : p.conn.closing = true → q.conn.closing = true
  shut : p.conn.outflow.state.closed = true → q.conn.outflow.state.closed = true

theorem Keeps.refl (p : Parley) : p.Keeps p := ⟨id, id, id⟩

theorem Keeps.of_conn_eq (h : q.conn = p.conn) : p.Keeps q := by
  constructor <;> rw [h] <;> exact id

theorem Keeps.hushed (h : p.Keeps q) (hp : p.Hushed) : q.Hushed :=
  ⟨hp.1.imp h.closed h.closing, h.shut hp.2⟩

/-- A frame that is queued goes to the end, and changes nothing of the connection. -/
theorem conn_of_post (h : p.post frame = some q) : q.conn = p.conn := by
  obtain ⟨outbox, -, rfl⟩ := Option.map_eq_some_iff.1 h
  rfl

theorem queued_of_post (h : p.post frame = some q) : q.queued = p.queued ++ [frame] := by
  obtain ⟨outbox, -, rfl⟩ := Option.map_eq_some_iff.1 h
  rfl

/-- What a step does. A look that ends the strand changes nothing, and neither does one that lets it go on, so of
what the looks have found only what is used later is kept. -/
inductive Step (p : Parley) : Strand → Parley → Strand → Prop
  | quits (x : Strand) : p.Step x p .done
  | writeOn (call : Nat) (data : Bytes) (written : Nat) :
    p.Step (.write call data written) p (.writeOn call data written)
  | takeCredit (call : Nat) (data : Bytes) (written : Nat) :
    p.Step (.writeOn call data written) p (.takeCredit call data written)
  | queueSegment (call : Nat) (data : Bytes) (written credit : Nat) :
    p.Step (.send call data written credit) p (.queueSegment call data written credit)
  | takeData (call : Nat) (want : Want) : p.Step (.read call want) p (.takeData call want)
  | reportOn (running : p.conn.closed = false) : p.Step .report p .reportOn
  | settle (running : p.conn.closing = false) : p.Step .reportOn p .settle
  | queueReport (credit : UInt32) : p.Step (.sendReport credit) p (.queueReport credit)
  | sendClose (running : p.conn.closing = false) : p.Step .closeOn p .sendClose
  | queueClose : p.Step .sendClose p .queueClose
  | waits {call : Nat} {data : Bytes} {written : Nat} {outflow : Outflow Fiber}
    (acquire : p.conn.outflow.acquire (.call call) (min (data.length - written) p.maxSegment) = (outflow, none)) :
    p.Step (.takeCredit call data written) { p with conn := { p.conn with outflow } } (.takeCredit call data written)
  | ends {call : Nat} {data : Bytes} {written : Nat} {outflow : Outflow Fiber}
    (acquire : p.conn.outflow.acquire (.call call) (min (data.length - written) p.maxSegment) = (outflow, some none)) :
    p.Step (.takeCredit call data written) { p with conn := { p.conn with outflow } } .done
  | spends {call : Nat} {data : Bytes} {written credit : Nat} {outflow : Outflow Fiber}
    (acquire : p.conn.outflow.acquire (.call call) (min (data.length - written) p.maxSegment) =
      (outflow, some (some credit))) :
    p.Step (.takeCredit call data written) { p with conn := { p.conn with outflow } } (.send call data written credit)
  | misses (call : Nat) (want : Want) (inflow : Inflow Fiber) :
    p.Step (.takeData call want) { p with conn := { p.conn with inflow } } (.rest call want)
  | finds (call : Nat) (want : Want) (inflow : Inflow Fiber) :
    p.Step (.takeData call want) { p with conn := { p.conn with inflow } } .report
  | rests (call : Nat) (want : Want) (inflow : Inflow Fiber) :
    p.Step (.rest call want) { p with conn := { p.conn with inflow } } (.takeData call want)
  | settles (inflow : Inflow Fiber) : p.Step .settle { p with conn := { p.conn with inflow } } .done
  | due (inflow : Inflow Fiber) (credit : UInt32) :
    p.Step .settle { p with conn := { p.conn with inflow } } (.sendReport credit)
  | saysData {call : Nat} {data : Bytes} {written credit : Nat} {q : Parley}
    (post : p.post (.data p.conn.id ((data.drop written).take credit) (written + credit < data.length)) = some q) :
    p.Step (.queueSegment call data written credit) q (.write call data (written + credit))
  | saysCredit {credit : UInt32} {q : Parley} (post : p.post (.sendOk p.conn.id credit) = some q) :
    p.Step (.queueReport credit) q .done
  | saysClose {q : Parley} (post : p.post (.control .connClose p.conn.id) = some q) : p.Step .queueClose q .done
  | closes (running : p.conn.closed = false) :
    p.Step (.close .here) { p with conn := { p.conn with closed := true } } (.stopReads .here)
  | hears : p.Step (.close .peer) { p with conn := { p.conn with closing := true } } (.stopReads .peer)
  | shuts : p.Step (.close .session) { p with conn := { p.conn with closed := true } } (.stopReads .session)
  | stopsReads (closer : Closer) :
    p.Step (.stopReads closer) { p with conn := { p.conn with inflow := p.conn.inflow.stop.1 } } (.stopWrites closer)
  | stopsWrites (closer : Closer) :
    p.Step (.stopWrites closer) { p with conn := { p.conn with outflow := p.conn.outflow.close.1 } }
      (if closer = .here then .closeOn else .done)

/-- Every step of a strand is one of these. -/
theorem steps (p : Parley) (x : Strand) : p.Step x (p.step x).1 (p.step x).2 := by
  cases x with
  | write call data written =>
    simp only [step]
    split
    · exact .quits _
    · exact .writeOn ..
  | writeOn call data written =>
    simp only [step]
    split
    · exact .quits _
    · exact .takeCredit ..
  | takeCredit call data written =>
    simp only [step]
    split
    · exact .waits ‹_›
    · exact .ends ‹_›
    · exact .spends ‹_›
  | send call data written credit =>
    simp only [step]
    split
    · exact .quits _
    · exact .queueSegment ..
  | queueSegment call data written credit =>
    simp only [step]
    split
    · exact .saysData ‹_›
    · exact .quits _
  | read call want =>
    simp only [step]
    split
    · exact .quits _
    · exact .takeData ..
  | takeData call want =>
    simp only [step]
    split
    · exact .misses ..
    · exact .finds ..
  | report =>
    simp only [step]
    split
    · exact .quits _
    · exact .reportOn (Bool.eq_false_iff.2 ‹_›)
  | reportOn =>
    simp only [step]
    split
    · exact .quits _
    · exact .settle (Bool.eq_false_iff.2 ‹_›)
  | settle =>
    simp only [step]
    split
    · exact .settles _
    · exact .due ..
  | sendReport credit =>
    simp only [step]
    split
    · exact .quits _
    · exact .queueReport credit
  | queueReport credit =>
    simp only [step]
    cases hpost : p.post (.sendOk p.conn.id credit) with
    | none => exact .quits _
    | some q => exact .saysCredit hpost
  | close closer =>
    cases closer with
    | here =>
      simp only [step]
      split
      · exact .quits _
      · exact .closes (Bool.eq_false_iff.2 ‹_›)
    | peer => exact .hears
    | session => exact .shuts
  | closeOn =>
    simp only [step]
    split
    · exact .quits _
    · exact .sendClose (Bool.eq_false_iff.2 ‹_›)
  | sendClose =>
    simp only [step]
    split
    · exact .quits _
    · exact .queueClose
  | queueClose =>
    simp only [step]
    cases hpost : p.post (.control .connClose p.conn.id) with
    | none => exact .quits _
    | some q => exact .saysClose hpost
  | rest call want => exact .rests ..
  | stopReads closer => exact .stopsReads closer
  | stopWrites closer => exact .stopsWrites closer
  | done => exact .quits _

/-- What a strand does with the write queue as it makes a step: nothing, or it queues a frame that it bore. -/
inductive Speaks (p q : Parley) (x : Strand) : Prop
  | mute (queued : q.queued = p.queued) (outbox : q.outbox = p.outbox) (started : q.started = p.started)
  | spoke (frame : Frame) (v : Voice) (post : p.post frame = some q) (voice : frame.voice? = some v)
      (bears : ∀ closing, x.bears closing = some v)

/-- A window that is closed stays so, and gives nothing. -/
theorem closed_of_acquire {k : Fiber} {want : Nat} {outflow outflow' : Outflow Fiber}
    {answer : Option (Option Nat)} (h : outflow.acquire k want = (outflow', answer))
    (hclosed : outflow.state.closed = true) :
    outflow'.state.closed = true ∧ ∀ credit, answer ≠ some (some credit) := by
  rcases Monitor.served_poll h with ⟨-, rfl, rfl⟩ | ⟨-, hlook, -⟩
  · exact ⟨hclosed, fun _ => by simp⟩
  · have hspends := SendWindow.spends_of_acquire hlook
    generalize outflow'.state = w at hspends ⊢
    cases hspends with
    | ended => exact ⟨hclosed, fun _ => by simp⟩
    | given running | waits running => exact absurd (running.symm.trans hclosed) (by simp)

namespace Step

theorem speaks (h : p.Step x q y) : p.Speaks q x := by
  cases h with
  | saysData post => exact .spoke _ .data post (voice?_data ..) fun _ => rfl
  | saysCredit post => exact .spoke _ .credit post rfl fun _ => rfl
  | saysClose post => exact .spoke _ .close post rfl fun _ => rfl
  | _ => exact .mute rfl rfl rfl

theorem keeps (h : p.Step x q y) : p.Keeps q := by
  cases h with
  | waits acquire | ends acquire | spends acquire => exact ⟨id, id, fun hw => (closed_of_acquire acquire hw).1⟩
  | saysData post | saysCredit post | saysClose post => exact .of_conn_eq (conn_of_post post)
  | closes | shuts => exact ⟨fun _ => rfl, id, id⟩
  | hears => exact ⟨id, fun _ => rfl, id⟩
  | stopsWrites => exact ⟨id, id, fun _ => rfl⟩
  | _ => exact ⟨id, id, id⟩

end Step

/-! ### What a closed connection says -/

theorem said_of_queued (h : q.queued = p.queued) (v : Voice) : q.said v = p.said v := by rw [said, h, said]

theorem said_of_post {w : Voice} (h : p.post frame = some q) (voice : frame.voice? = some w) (v : Voice) :
    q.said v = p.said v + if w = v then 1 else 0 := by
  unfold said
  rw [queued_of_post h, List.countP_append, List.countP_singleton]
  simp [voice]

/-- Nobody comes to bear anything of a closed connection, and who has spoken bears nothing more. A word of the
close is not borne once the peer has closed too. -/
theorem Step.bears (h : p.Step x q y) (hp : p.Hushed) (hv : v = .close → p.conn.closing = true)
    (hy : y.bears q.conn.closing = some v) : x.bears p.conn.closing = some v ∧ q.queued = p.queued := by
  cases h with
  | queueSegment | queueReport | queueClose | due => exact ⟨hy, rfl⟩
  | reportOn running =>
    have hclosing : p.conn.closing = true := hp.1.resolve_left (by simp [running])
    simp [Strand.bears, hclosing] at hy
  | settle running => exact ⟨by simpa [Strand.bears, running] using hy, rfl⟩
  | sendClose running =>
    cases hy
    exact absurd (hv rfl) (by simp [running])
  | spends acquire => exact absurd rfl ((closed_of_acquire acquire hp.2).2 _)
  | stopsWrites closer => cases closer <;> cases hy
  | _ => cases hy

/-- What a strand has said and still bears of a closed connection does not grow. -/
theorem Step.spoken (h : p.Step x q y) (hp : p.Hushed) (hv : v = .close → p.conn.closing = true) :
    q.said v + (if y.bears q.conn.closing = some v then 1 else 0) ≤
      p.said v + if x.bears p.conn.closing = some v then 1 else 0 := by
  cases h.speaks with
  | mute queued =>
    rw [said_of_queued queued]
    split
    · rename_i hy
      rw [if_pos (h.bears hp hv hy).1]
    · omega
  | spoke frame w post voice bears =>
    have hsilent : y.bears q.conn.closing ≠ some v := fun hy => by
      have hsame := queued_of_post post ▸ (h.bears hp hv hy).2
      simp at hsame
    rw [said_of_post post voice, bears, if_neg hsilent]
    simp

/-! ### Who closes -/

/-- How far a strand has come with a close the connection shows. -/
def Fits (p : Parley) : Strand → Prop
  | .stopReads closer | .stopWrites closer =>
    if closer = .peer then p.conn.closing = true else p.conn.closed = true
  | .closeOn | .sendClose | .queueClose => p.conn.closed = true ∧ p.conn.outflow.state.closed = true
  | _ => True

theorem Keeps.fits (h : p.Keeps q) (hx : p.Fits x) : q.Fits x := by
  cases x with
  | stopReads | stopWrites =>
    simp only [Fits] at hx ⊢
    split at hx
    · rw [if_pos ‹_›]
      exact h.closing hx
    · rw [if_neg ‹_›]
      exact h.closed hx
  | closeOn | sendClose | queueClose => exact ⟨h.closed hx.1, h.shut hx.2⟩
  | _ => trivial

theorem Step.fits (h : p.Step x q y) (hx : p.Fits x) : q.Fits y := by
  cases h with
  | sendClose | queueClose | stopsReads => exact hx
  | closes | hears | shuts => rfl
  | stopsWrites closer =>
    cases closer with
    | here => exact ⟨hx, rfl⟩
    | peer | session => trivial
  | _ => trivial

/-- A close that has stopped both windows leaves the connection closed. -/
theorem hushed_of_stopWrites {closer : Closer} (h : p.step (.stopWrites closer) = (q, y))
    (hx : p.Fits (.stopWrites closer)) : q.Hushed ∧ (closer = .peer → q.conn.closing = true) := by
  cases h
  cases closer with
  | here | session => exact ⟨⟨.inl hx, rfl⟩, nofun⟩
  | peer => exact ⟨⟨.inr hx, rfl⟩, fun _ => hx⟩

theorem Step.writing (h : p.Step x q y) (hy : y.isWriting = true) : x.isWriting = true := by
  cases h with
  | writeOn | takeCredit | queueSegment | waits | ends | spends | saysData => rfl
  | stopsWrites closer => cases closer <;> cases hy
  | _ => cases hy

/-- Who owes the word of the close has marked the connection. -/
theorem Step.marked (h : p.Step x q y) (hy : y.owesClose = true) : q.queued = p.queued ∧
    (x.owesClose = true ∨ p.conn.closed = false ∧ q.conn.closed = true) := by
  cases h with
  | sendClose | queueClose => exact ⟨rfl, .inl rfl⟩
  | closes running => exact ⟨rfl, .inr ⟨running, rfl⟩⟩
  | stopsReads closer | stopsWrites closer =>
    cases closer with
    | here => exact ⟨rfl, .inl rfl⟩
    | peer | session => cases hy
  | _ => cases hy

/-- Only the strand that marked the connection tells the peer, and only once. -/
theorem Step.owes (h : p.Step x q y) :
    q.said .close + (if y.owesClose then 1 else 0) + (if p.conn.closed then 1 else 0) ≤
      p.said .close + (if x.owesClose then 1 else 0) + if q.conn.closed then 1 else 0 := by
  have hmark : (if p.conn.closed then 1 else 0) ≤ if q.conn.closed then 1 else 0 := by
    split
    · rw [if_pos (h.keeps.closed ‹_›)]
    · omega
  cases hy : y.owesClose
  · cases h.speaks with
    | mute queued =>
      rw [said_of_queued queued]
      simp only [Bool.false_eq_true, if_false]
      omega
    | spoke frame w post voice bears =>
      have hx : (if w = .close then 1 else 0) ≤ if x.owesClose then 1 else 0 := by
        split
        · subst w
          rw [if_pos (Strand.owesClose_of_bears (bears true))]
        · omega
      rw [said_of_post post voice]
      simp only [Bool.false_eq_true, if_false]
      omega
  · obtain ⟨queued, hx | ⟨hopen, hclosed⟩⟩ := h.marked hy
    · rw [said_of_queued queued, hx]
      omega
    · rw [said_of_queued queued, hopen, hclosed]
      simp

/-- The word of the close is queued by a strand for which the connection is closed. -/
theorem Step.hushed (h : p.Step x q y) (hx : p.Fits x) (hp : 0 < p.said .close → p.Hushed)
    (hq : 0 < q.said .close) : q.Hushed := by
  refine h.keeps.hushed ?_
  cases h.speaks with
  | mute queued => exact hp (said_of_queued queued .close ▸ hq)
  | spoke frame w post voice bears =>
    rw [said_of_post post voice] at hq
    by_cases hw : w = .close
    · have hb := bears true
      subst w
      cases x with
      | sendClose | queueClose => exact ⟨.inl hx.1, hx.2⟩
      | _ => simp [Strand.bears] at hb
    · rw [if_neg hw] at hq
      exact hp hq

/-! ### The order on the wire -/

/-- What was queued after the word of the close stays behind it. -/
structure Wired (p : Parley) : Prop where
  /-- What is on its way was queued, each at its place. -/
  found : ∀ x ∈ p.started ++ p.outbox.toList, ∀ i, x.place = some i → p.queued[i]? = some x.frame
  /-- The word of the close does not go first. -/
  plain : ∀ x ∈ p.outbox.priority, x.frame.flag ≠ .connClose
  normal : p.outbox.normal.Pairwise Said.InTurn
  started : p.started.Pairwise Said.InTurn
  ahead : ∀ x ∈ p.started, ∀ y ∈ p.outbox.toList, x.InTurn y

theorem Wired.of_eq (h : p.Wired) (queued : q.queued = p.queued) (outbox : q.outbox = p.outbox)
    (started : q.started = p.started) : q.Wired := by
  constructor
  · rw [started, outbox, queued]; exact h.found
  · rw [outbox]; exact h.plain
  · rw [outbox]; exact h.normal
  · rw [started]; exact h.started
  · rw [started, outbox]; exact h.ahead

theorem lanes_of_push {lanes lanes' : Lanes Said} {said : Said} (h : lanes.push said.lane said = some lanes') :
    (said.frame.flag ≠ .connClose ∧ lanes'.priority = lanes.priority ++ [said] ∧ lanes'.normal = lanes.normal) ∨
      (lanes'.priority = lanes.priority ∧ lanes'.normal = lanes.normal ++ [said]) := by
  unfold Lanes.push at h
  split at h
  · cases h
  · cases hlane : said.lane <;> rw [hlane] at h <;> cases h
    · refine .inl ⟨fun hflag => ?_, rfl, rfl⟩
      simp [Said.lane, hflag, Flag.isPriority] at hlane
    · exact .inr ⟨rfl, rfl⟩

/-- A frame goes behind all others of its lane. -/
theorem Wired.push {said : Said} {rest : List Frame} (h : p.Wired)
    (hpush : p.outbox.push said.lane said = some q.outbox) (started : q.started = p.started)
    (queued : q.queued = p.queued ++ rest)
    (hplace : ∀ i, said.place = some i → i = p.queued.length ∧ rest[0]? = some said.frame) : q.Wired := by
  have hlast (x : Said) (hx : x ∈ p.started ++ p.outbox.toList) : x.InTurn said := fun _ i j hi hj => by
    rw [(hplace j hj).1]
    exact (List.getElem?_eq_some_iff.1 (h.found x hx i hi)).1
  have hmem (x : Said) (hx : x ∈ q.outbox.toList) : x ∈ p.outbox.toList ∨ x = said := Lanes.mem_of_push hpush hx
  refine ⟨fun x hx i hi => ?_, ?_, ?_, started ▸ h.started, fun x hx y hy => ?_⟩
  · have hold : x ∈ p.started ++ p.outbox.toList ∨ x = said := by
      rcases List.mem_append.1 hx with hx | hx
      · exact .inl (List.mem_append_left _ (started ▸ hx))
      · exact (hmem x hx).imp_left (List.mem_append_right _)
    rcases hold with hx | rfl
    · have hfound := h.found x hx i hi
      rw [queued, List.getElem?_append_left (List.getElem?_eq_some_iff.1 hfound).1]
      exact hfound
    · obtain ⟨rfl, hrest⟩ := hplace i hi
      rw [queued, List.getElem?_append_right le_rfl, Nat.sub_self]
      exact hrest
  · rcases lanes_of_push hpush with ⟨hflag, hpriority, -⟩ | ⟨hpriority, -⟩ <;> rw [hpriority]
    · simp only [List.mem_append, List.mem_singleton]
      rintro x (hx | rfl)
      · exact h.plain x hx
      · exact hflag
    · exact h.plain
  · rcases lanes_of_push hpush with ⟨-, -, hnormal⟩ | ⟨-, hnormal⟩ <;> rw [hnormal]
    · exact h.normal
    · refine List.pairwise_append.2 ⟨h.normal, List.pairwise_singleton .., fun x hx y hy => ?_⟩
      rw [List.mem_singleton.1 hy]
      exact hlast x (List.mem_append_right _ (List.mem_append_right _ hx))
  · rw [started] at hx
    rcases hmem y hy with hy | rfl
    · exact h.ahead x hx y hy
    · exact hlast x (List.mem_append_left _ hx)

/-- What is dropped from the queue does not come to the wire. -/
theorem Wired.stop (h : p.Wired) (outbox : q.outbox = { stopped := true }) (queued : q.queued = p.queued)
    (started : q.started = p.started) : q.Wired := by
  refine ⟨fun x hx => ?_, by simp [outbox], by simp [outbox], started ▸ h.started, by simp [outbox, Lanes.toList]⟩
  rw [outbox, started] at hx
  rw [queued]
  exact h.found x (List.mem_append_left _ (by simpa [Lanes.toList] using hx))

theorem lanes_of_take {lanes lanes' : Lanes Said} {said : Said} (h : lanes.take = (lanes', some said)) :
    (lanes.priority = said :: lanes'.priority ∧ lanes.normal = lanes'.normal) ∨
      (lanes.priority = [] ∧ lanes'.priority = [] ∧ lanes.normal = said :: lanes'.normal) := by
  unfold Lanes.take at h
  split at h <;> cases h
  · exact .inl ⟨‹_›, rfl⟩
  · rename_i hpriority hnormal
    exact .inr ⟨hpriority, hpriority, hnormal⟩

/-- The writer takes what comes before all that is left. -/
theorem Wired.start (h : p.Wired) : p.start.Wired := by
  unfold Parley.start
  split
  · rename_i lanes said hpop
    have htake := (Lanes.take_of_pop hpop).2
    have hall : p.outbox.toList = said :: lanes.toList := Lanes.toList_of_take htake
    have hsaid : said ∈ p.outbox.toList := hall ▸ List.mem_cons_self
    have hmem (x : Said) (hx : x ∈ lanes.toList) : x ∈ p.outbox.toList := hall ▸ List.mem_cons_of_mem _ hx
    -- A frame of the priority lane is no word of a close, and behind one of the normal lane is only that lane.
    obtain ⟨hplain, hnormal, hnext⟩ : (∀ x ∈ lanes.priority, x.frame.flag ≠ .connClose) ∧
        lanes.normal.Pairwise Said.InTurn ∧ ∀ x ∈ lanes.toList, said.InTurn x := by
      rcases lanes_of_take htake with ⟨hpriority, hsame⟩ | ⟨-, hpriority, hnormal⟩
      · have hplain := hpriority ▸ h.plain
        exact ⟨fun x hx => hplain x (List.mem_cons_of_mem _ hx), hsame ▸ h.normal,
          fun x _ hflag => absurd hflag (hplain said List.mem_cons_self)⟩
      · have hpairs := List.pairwise_cons.1 (hnormal ▸ h.normal)
        refine ⟨by simp [hpriority], hpairs.2, fun x hx => hpairs.1 x ?_⟩
        simpa [Lanes.toList, hpriority] using hx
    refine ⟨fun x hx => h.found x ?_, hplain, hnormal, ?_, fun x hx y hy => ?_⟩
    · simp only [List.mem_append, List.mem_singleton] at hx ⊢
      rcases hx with (hx | rfl) | hx
      · exact .inl hx
      · exact .inr hsaid
      · exact .inr (hmem x hx)
    · refine List.pairwise_append.2 ⟨h.started, List.pairwise_singleton .., fun x hx y hy => ?_⟩
      rw [List.mem_singleton.1 hy]
      exact h.ahead x hx said hsaid
    · rcases List.mem_append.1 hx with hx | hx
      · exact h.ahead x hx y (hmem y hy)
      · rw [List.mem_singleton.1 hx]
        exact hnext y hy
  · exact h

theorem Wired.step (h : p.Wired) (hs : p.Step x q y) : q.Wired := by
  cases hs.speaks with
  | mute queued outbox started => exact h.of_eq queued outbox started
  | spoke frame v post =>
    obtain ⟨outbox, hpush, rfl⟩ := Option.map_eq_some_iff.1 post
    exact h.push hpush rfl rfl fun i hi => ⟨(Option.some.inj hi).symm, rfl⟩

end Parley

namespace Crowd

open Parley

variable {c d : Crowd} {a : Act} {x : Strand} {v : Voice}

/-- The strands that have taken their last look and still say something. -/
def bearing (v : Voice) (c : Crowd) : Nat := c.strands.countP fun x => x.bears c.parley.conn.closing = some v

theorem countP_set {α : Type} {l : List α} {i : Nat} {x : α} (h : l[i]? = some x) (pick : α → Bool) (y : α) :
    (l.set i y).countP pick + (if pick x then 1 else 0) = l.countP pick + if pick y then 1 else 0 := by
  obtain ⟨hi, rfl⟩ := List.getElem?_eq_some_iff.1 h
  have hle : (if pick l[i] then 1 else 0) ≤ l.countP pick := by
    split
    · exact List.countP_pos_iff.2 ⟨_, List.getElem_mem hi, ‹_›⟩
    · exact Nat.zero_le _
  rw [List.countP_set hi]
  omega

theorem countP_set_done_le (l : List Strand) (i : Nat) (pick : Strand → Bool) (h : pick .done = false) :
    (l.set i .done).countP pick ≤ l.countP pick := by
  cases hi : l[i]? with
  | none => rw [List.set_eq_of_length_le (List.getElem?_eq_none_iff.1 hi)]
  | some x =>
    have := countP_set hi pick .done
    rw [h] at this
    simp only [Bool.false_eq_true, if_false] at this
    omega

/-- The other parties leave what is closed, and what the connection has queued. -/
structure Alike (p q : Parley) : Prop where
  closed : q.conn.closed = p.conn.closed
  closing : q.conn.closing = p.conn.closing
  shut : q.conn.outflow.state.closed = p.conn.outflow.state.closed
  queued : q.queued = p.queued

/-- What an act does to the strands: one makes a step, one begins, one is over, or none is touched. -/
inductive Moves (c d : Crowd) : Prop
  | ran (i : Nat) (x y : Strand) (here : c.strands[i]? = some x) (step : c.parley.Step x d.parley y)
      (strands : d.strands = c.strands.set i y)
  | began (x : Strand) (turn : x.isWriting = true → c.strands.countP Strand.isWriting = 0)
      (bears : ∀ closing, x.bears closing = none) (owes : x.owesClose = false) (fits : ∀ p, Parley.Fits p x)
      (parley : d.parley = c.parley) (strands : d.strands = c.strands ++ [x])
  | left (i : Nat) (alike : Alike c.parley d.parley) (strands : d.strands = c.strands.set i .done)
  | aside (alike : Alike c.parley d.parley) (strands : d.strands = c.strands)

theorem Alike.refl (p : Parley) : Alike p p := ⟨rfl, rfl, rfl, rfl⟩

theorem moves_drop (i : Nat) (c : Crowd) : Moves c (c.drop i) := by
  unfold drop
  split
  · exact .left i ⟨rfl, rfl, rfl, rfl⟩ rfl
  · exact .left i ⟨rfl, rfl, rfl, rfl⟩ rfl
  · exact .left i ⟨rfl, rfl, rfl, rfl⟩ rfl
  · exact .aside (.refl _) rfl

theorem moves_act (a : Act) (c : Crowd) : Moves c (c.act a) := by
  cases a with
  | run i =>
    simp only [act]
    split
    · rename_i x hx
      exact .ran i x _ hx (steps ..) rfl
    · exact .aside (.refl _) rfl
  | write call data =>
    simp only [act]
    split
    · exact .aside (.refl _) rfl
    · rename_i hturn
      refine .began (.write call data 0) (fun _ => ?_) (fun _ => rfl) rfl (fun _ => trivial) rfl rfl
      simpa [List.countP_eq_zero] using hturn
  | read call want => exact .began (.read call want) nofun (fun _ => rfl) rfl (fun _ => trivial) rfl rfl
  | close closer => exact .began (.close closer) nofun (fun _ => rfl) rfl (fun _ => trivial) rfl rfl
  | leave i => exact moves_drop i c
  | segment data part =>
    simp only [act]
    split <;> exact .aside ⟨rfl, rfl, rfl, rfl⟩ rfl
  | grant | others | ends | stop => exact .aside ⟨rfl, rfl, rfl, rfl⟩ rfl
  | start =>
    refine .aside ?_ rfl
    simp only [act, Parley.start]
    split <;> exact ⟨rfl, rfl, rfl, rfl⟩

/-! ### What a crowd keeps -/

/-- What a crowd shows at any time of its run. -/
structure Told (c : Crowd) : Prop where
  /-- The word of the close was queued once, or one strand still owes it, if the connection is closed here. -/
  once : c.parley.said .close + c.strands.countP Strand.owesClose ≤ if c.parley.conn.closed then 1 else 0
  /-- At most one strand writes. -/
  turn : c.strands.countP Strand.isWriting ≤ 1
  fits : ∀ x ∈ c.strands, c.parley.Fits x
  hushed : 0 < c.parley.said .close → c.parley.Hushed
  wired : c.parley.Wired

theorem Alike.said {p q : Parley} (h : Alike p q) (v : Voice) : q.said v = p.said v := said_of_queued h.queued v

theorem Alike.keeps {p q : Parley} (h : Alike p q) : p.Keeps q :=
  ⟨fun hp => h.closed.trans hp, fun hp => h.closing.trans hp, fun hp => h.shut.trans hp⟩

theorem Moves.keeps (h : Moves c d) : c.parley.Keeps d.parley := by
  cases h with
  | ran i x y here step => exact step.keeps
  | began x turn bears owes fits parley => exact .of_conn_eq (by rw [parley])
  | left i alike | aside alike => exact alike.keeps

theorem wired_act (h : c.parley.Wired) (a : Act) : (c.act a).parley.Wired := by
  cases a with
  | run i =>
    simp only [act]
    split
    · exact h.step (steps ..)
    · exact h
  | write =>
    simp only [act]
    split <;> exact h
  | read | close => exact h
  | leave i =>
    simp only [act, drop]
    split <;> exact h.of_eq rfl rfl rfl
  | segment =>
    simp only [act]
    split
    · exact h.of_eq rfl rfl rfl
    · exact h
  | grant | ends => exact h.of_eq rfl rfl rfl
  | others frame =>
    let said : Said := { frame }
    cases hpush : c.parley.outbox.push said.lane said with
    | none => exact h.of_eq rfl (by simp [act, said, hpush]) rfl
    | some lanes =>
      have hlanes : (c.act (.others frame)).parley.outbox = lanes := by simp [act, said, hpush]
      exact h.push (hlanes ▸ hpush) rfl (List.append_nil _).symm fun i hi => by cases hi
  | stop => exact h.stop rfl rfl rfl
  | start => exact h.start

theorem Told.moves (h : c.Told) (hm : Moves c d) (hw : d.parley.Wired) : d.Told := by
  have hkeeps := hm.keeps
  cases hm with
  | ran i x y here step strands =>
    have hx := h.fits x (List.mem_of_getElem? here)
    have howes := countP_set here Strand.owesClose y
    have hturn := countP_set here Strand.isWriting y
    refine ⟨?_, ?_, fun z hz => ?_, step.hushed hx h.hushed, hw⟩
    · have hsays := step.owes
      have honce := h.once
      rw [strands]
      omega
    · rw [strands]
      have hwriting : (if y.isWriting then 1 else 0) ≤ if x.isWriting then 1 else 0 := by
        split
        · rw [if_pos (step.writing ‹_›)]
        · omega
      have := h.turn
      omega
    · rw [strands] at hz
      rcases List.mem_or_eq_of_mem_set hz with hz | rfl
      · exact hkeeps.fits (h.fits z hz)
      · exact step.fits hx
  | began x turn bears owes fits parley strands =>
    refine ⟨?_, ?_, fun z hz => ?_, parley ▸ h.hushed, hw⟩
    · rw [parley, strands, List.countP_append, List.countP_singleton, owes]
      exact h.once
    · rw [strands, List.countP_append, List.countP_singleton]
      have := h.turn
      split
      · rw [turn ‹_›]
      · omega
    · rw [strands, List.mem_append, List.mem_singleton] at hz
      rcases hz with hz | rfl
      · exact parley ▸ h.fits z hz
      · exact fits _
  | left i alike strands =>
    refine ⟨?_, ?_, fun z hz => ?_, fun hsaid => hkeeps.hushed (h.hushed (alike.said .close ▸ hsaid)), hw⟩
    · rw [alike.said, alike.closed, strands]
      have := countP_set_done_le c.strands i Strand.owesClose rfl
      have := h.once
      omega
    · rw [strands]
      exact (countP_set_done_le c.strands i _ rfl).trans h.turn
    · rw [strands] at hz
      rcases List.mem_or_eq_of_mem_set hz with hz | rfl
      · exact hkeeps.fits (h.fits z hz)
      · trivial
  | aside alike strands =>
    refine ⟨?_, strands ▸ h.turn, fun z hz => hkeeps.fits (h.fits z (strands ▸ hz)),
      fun hsaid => hkeeps.hushed (h.hushed (alike.said .close ▸ hsaid)), hw⟩
    rw [alike.said, alike.closed, strands]
    exact h.once

theorem Told.acts (h : c.Told) (as : List Act) : (c.acts as).Told := by
  induction as generalizing c with
  | nil => exact h
  | cons a as ih => exact ih (h.moves (moves_act a c) (wired_act h.wired a))

theorem told_fresh (maxSegment : Nat) (conn : Conn) : (fresh maxSegment conn).Told where
  once := Nat.zero_le _
  turn := Nat.zero_le _
  fits _ hx := nomatch hx
  hushed := nofun
  wired := ⟨fun _ hx => (nomatch hx), fun _ hx => (nomatch hx), .nil, .nil, fun _ hx => (nomatch hx)⟩

/-! ### What a closed crowd says -/

/-- What was said of a closed connection and what its strands still bear does not grow. -/
theorem Moves.spoken (hm : Moves c d) (hc : c.parley.Hushed) (hv : v = .close → c.parley.conn.closing = true) :
    d.parley.said v + d.bearing v ≤ c.parley.said v + c.bearing v := by
  have hkeeps := hm.keeps
  -- Whoever bears something still bore it before, also as the look at the mark of the peer changes.
  have hmono (l : List Strand) : l.countP (fun x => x.bears d.parley.conn.closing = some v) ≤
      l.countP fun x => x.bears c.parley.conn.closing = some v :=
    List.countP_mono_left fun x _ hx => by
      simp only [decide_eq_true_eq] at hx ⊢
      exact Strand.bears_mono hkeeps.closing hx
  unfold bearing
  cases hm with
  | ran i x y here step strands =>
    have hsaid := step.spoken hc hv
    have hset := countP_set here (fun x => x.bears d.parley.conn.closing = some v) y
    have hothers := hmono (c.strands.set i .done)
    have hafter := countP_set here (fun x => x.bears d.parley.conn.closing = some v) .done
    have hbefore := countP_set here (fun x => x.bears c.parley.conn.closing = some v) .done
    simp only [decide_eq_true_eq, Strand.bears_done, reduceCtorEq, if_false] at hset hafter hbefore
    rw [strands]
    omega
  | began x turn bears owes fits parley strands =>
    rw [parley, strands, List.countP_append, List.countP_singleton, bears]
    simp
  | left i alike strands =>
    rw [alike.said, alike.closing, strands]
    have := countP_set_done_le c.strands i (fun x => x.bears c.parley.conn.closing = some v) (by simp)
    omega
  | aside alike strands => rw [alike.said, alike.closing, strands]

theorem keeps_acts (as : List Act) (c : Crowd) : c.parley.Keeps (c.acts as).parley := by
  induction as generalizing c with
  | nil => exact .refl _
  | cons a as ih =>
    have hfirst := (moves_act a c).keeps
    have hrest := ih (c.act a)
    exact ⟨hrest.closed ∘ hfirst.closed, hrest.closing ∘ hfirst.closing, hrest.shut ∘ hfirst.shut⟩

theorem spoken_acts (as : List Act) (hc : c.parley.Hushed) (hv : v = .close → c.parley.conn.closing = true) :
    (c.acts as).parley.said v + (c.acts as).bearing v ≤ c.parley.said v + c.bearing v := by
  induction as generalizing c with
  | nil => exact Nat.le_refl _
  | cons a as ih =>
    have hm := moves_act a c
    exact (ih (hm.keeps.hushed hc) fun he => hm.keeps.closing (hv he)).trans (hm.spoken hc hv)

/-- A connection falls silent as it closes, but for who is under way. -/
structure FallsSilent (c d : Crowd) : Prop where
  /-- It says at most once that it is closed, and is closed then. -/
  once : d.parley.said .close ≤ 1
  hushed : 0 < d.parley.said .close → d.parley.Hushed
  /-- What comes to the wire was queued, and behind the word of the close only what was queued later. -/
  found : ∀ x ∈ d.parley.started, ∀ i, x.place = some i → d.parley.queued[i]? = some x.frame
  started : d.parley.started.Pairwise Said.InTurn
  /-- A close, of whoever closes, ends with a connection that is closed, and it stays so. -/
  closes : ∀ i closer, c.strands[i]? = some (.stopWrites closer) → (c.act (.run i)).parley.Hushed ∧
    (closer = .peer → (c.act (.run i)).parley.conn.closing = true)
  keeps : c.parley.Hushed → d.parley.Hushed
  /-- Of its data it queues no more, but the segment of a write that took credit before. -/
  data : c.parley.Hushed → d.parley.said .data ≤ c.parley.said .data + c.bearing .data
  alone : c.bearing .data ≤ 1
  /-- Of credit it queues no more, but the reports of readers that saw it open. -/
  credit : c.parley.Hushed → d.parley.said .credit ≤ c.parley.said .credit + c.bearing .credit
  /-- Once the peer has closed it does not tell it, unless a close saw the connection open there. -/
  close : c.parley.Hushed → c.parley.conn.closing = true →
    d.parley.said .close ≤ c.parley.said .close + c.bearing .close

/-- However the strands of a connection come between one another: once the connection is closed, on this side or
by the peer, only those still speak that had taken their last look before, once each. -/
theorem only_strands_under_way_speak (maxSegment : Nat) (conn : Conn) (as bs : List Act) :
    ((fresh maxSegment conn).acts as).FallsSilent (((fresh maxSegment conn).acts as).acts bs) := by
  set c := (fresh maxSegment conn).acts as
  have hc : c.Told := (told_fresh maxSegment conn).acts as
  have hd : (c.acts bs).Told := hc.acts bs
  have hspoken {v : Voice} (hhushed : c.parley.Hushed) (hv : v = .close → c.parley.conn.closing = true) :
      (c.acts bs).parley.said v ≤ c.parley.said v + c.bearing v :=
    (Nat.le_add_right ..).trans (spoken_acts bs hhushed hv)
  refine ⟨?_, hd.hushed, fun x hx => hd.wired.found x (List.mem_append_left _ hx), hd.wired.started,
    fun i closer here => ?_, (keeps_acts bs c).hushed, fun h => hspoken h nofun, ?_, fun h => hspoken h nofun,
    fun h hclosing => hspoken h fun _ => hclosing⟩
  · have honce := hd.once
    split at honce <;> omega
  · have hact : c.act (.run i) = ⟨(c.parley.step (.stopWrites closer)).1,
        c.strands.set i (c.parley.step (.stopWrites closer)).2⟩ := by
      simp only [act, here]
    rw [hact]
    exact hushed_of_stopWrites rfl (hc.fits _ (List.mem_of_getElem? here))
  · exact (List.countP_mono_left fun x _ hx => Strand.isWriting_of_bears (of_decide_eq_true hx)).trans hc.turn

/-- A write takes credit, and the connection is closed on this side. -/
def overtaken : List Act :=
  [.write 0 [120], .run 0, .run 0, .run 0, .close .here] ++ List.replicate 6 (.run 1)

/-- The write goes on, and its segment follows the word of the close into the queue and to the wire. -/
theorem segment_follows_farewell :
    ∃ c d, c = (fresh 8 (.make (.build []) 1 .unasked)).acts overtaken ∧
      d = c.acts [.run 0, .run 0, .start, .start] ∧
      c.parley.queued.map (·.flag) = [.connClose] ∧ c.parley.conn.closed = true ∧ c.bearing .data = 1 ∧
      d.parley.queued.map (·.flag) = [.connClose, .newMsg] ∧
      d.parley.started.map (·.frame.flag) = [.connClose, .newMsg] ∧ c.FallsSilent d :=
  ⟨_, _, rfl, rfl, by decide +kernel, by decide +kernel, by decide +kernel, by decide +kernel, by decide +kernel,
    only_strands_under_way_speak 8 _ overtaken _⟩

end Crowd

end StreamMux
