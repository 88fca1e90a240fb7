import Mathlib.Algebra.Order.BigOperators.Group.List
import Mathlib.Algebra.Order.Group.Nat
import StreamMux.Proofs.Integrity

/-! Credit is conserved. On a connection whose id is used once at each end, the credit of a direction is
left with the sender, spent on data under way, unread, read and not yet reported, or in a report under
way; together it is the receive window, as long as both ends are open, and no more than that ever. So
no segment overflows the receive window, and no grant is cut off. -/

namespace StreamMux

/-- A beginning of segments has no more bytes. -/
theorem length_bytesOf_le {segments all : List Segment} (h : segments <+: all) :
    (bytesOf segments).length ≤ (bytesOf all).length := by
  obtain ⟨rest, rfl⟩ := h
  rw [bytesOf_append, List.length_append]
  exact Nat.le_add_right ..

theorem ReceiveWindow.write_fits {w : ReceiveWindow} {id : Int32} {data : Bytes} {part : Bool}
    (hrunning : w.stopped = false) (hfit : w.buffered + data.length ≤ w.capacity) :
    w.write id data part =
      .ok { w with segments := w.segments ++ [⟨data, part⟩], buffered := w.buffered + data.length } := by
  rw [ReceiveWindow.write, if_neg (by simp [hrunning]), if_neg (by omega)]

/-- A segment under way is part of what is under way. -/
theorem bytes_le_of_mem {id : Int32} {frames : List Frame} {frame : Frame} {segment : Segment}
    (h : frame ∈ frames) (hid : frame.id = id) (hseg : frame.segment? = some segment) :
    segment.data.length ≤ (bytesOf (segmentsUnder id frames)).length := by
  have hmem : segment ∈ segmentsUnder id frames :=
    List.mem_filterMap.2 ⟨frame, List.mem_filter.2 ⟨h, by simp [hid]⟩, hseg⟩
  rw [bytesOf, List.length_flatMap]
  exact List.le_sum_of_mem (List.mem_map_of_mem hmem)

theorem credit_le_of_mem {id : Int32} {frames : List Frame} {frame : Frame}
    (h : frame ∈ frames) (hid : frame.id = id) (hflag : frame.flag = .msgSendOk) :
    frame.window.toNat ≤ creditUnder id frames := by
  have hcredit : frame.credit = frame.window.toNat := by simp [Frame.credit, hflag]
  rw [← hcredit]
  exact List.le_sum_of_mem (List.mem_map_of_mem (List.mem_filter.2 ⟨h, by simp [hid]⟩))

namespace Story

variable {settings : Settings} {ended : Bool} {s s' : Story}

/-- Every segment that the connection heard was taken, if its receive window had room for the last. -/
theorem Step.taken_heard (hs : Step settings ended s s') (h : s.taken = segmentsOf s.heard)
    (hfit : ∀ frame data part, s'.heard = s.heard ++ [frame] → View.IsSegment frame data part →
      s.face.closed = false → ∃ receive, s.face.receive.write s.face.id data part = .ok receive) :
    s'.taken = segmentsOf s'.heard := by
  have hhear {frame : Frame} (hseg : frame.segment? = none) :
      s.taken = segmentsOf (s.hear frame).heard := by
    simp [Story.hear, segmentsOf, hseg, h]
  cases hs with
  | serve | look | waste | shut => exact h
  | report | send | deny | confirm =>
    rw [taken_say, heard_say]
    exact h
  | leave =>
    rw [taken_leave, heard_leave]
    exact h
  | @enter frame data part receive hid hopen hseg hw =>
    simp [Story.hear, segmentsOf, segment?_of_isSegment hseg, h]
  | @overflow frame data part cause hid hopen hseg hw =>
    obtain ⟨receive, hok⟩ := hfit frame data part (heard_leave ..) hseg hopen
    rw [hok] at hw
    cases hw
  | hollow hid hopen hflag hp => exact hhear (segment?_eq_none (.inr hp))
  | @answer frame accepted hid hopen hflag =>
    exact hhear (segment?_eq_none (.inl (by rw [hflag]; cases accepted <;> rfl)))
  | grant hid hopen hflag => exact hhear (segment?_eq_none (.inl (by rw [hflag]; rfl)))
  | farewell hid hopen hflag => exact hhear (segment?_eq_none (.inl (by rw [hflag]; rfl)))

end Story

namespace Joint

variable {settings : Settings} {v : Side → View} {side : Side} {m n : Nat} {id : Int32}

/-- A session with a sole connection that is open still runs. -/
theorem running_of_open (h : Joint settings v) (hsole : (v side).Sole n id)
    (hmark : (v side).marks[n]? = some (id, false)) : (v side).closed = false := by
  cases hc : (v side).closed
  · rfl
  · have hco := (h.sound side).coherent
    have hn : n ∉ (v side).staged.toList := by
      rw [hco.no_staged hc]
      exact List.not_mem_nil
    have hl := Registry.mem_of_lookup (h.agreesOn hsole n hmark hn)
    rw [hco.no_entries hc] at hl
    cases hl

/-! ### What one end queued and the other end heard -/

/-- The segments that came in are the beginning of those queued. -/
theorem segments_dispatched (h : Joint settings v) (side : Side) (id : Int32) :
    segmentsUnder id (v side.other).dispatched <+: segmentsUnder id ((v side).queued.map (·.frame)) := by
  have hheard := h.heard side.other
  rw [Pair.other_other] at hheard
  obtain ⟨lost, hq, -⟩ :=
    (h.sound side).orderly.segments_queued id (h.sound side).coherent hheard
  rw [hq, List.append_assoc]
  exact List.prefix_append ..

/-- No more credit came in than was queued. -/
theorem credit_dispatched (h : Joint settings v) (side : Side) (id : Int32) :
    creditUnder id (v side).dispatched ≤ creditUnder id ((v side.other).queued.map (·.frame)) := by
  have := ((h.sound side.other).orderly.credit_queued id (h.sound side.other).coherent (h.heard side)).1
  omega

/-- Without a connection under the id, nothing is exchanged under it. -/
theorem under_queued_of_none (h : Joint settings v) (hsole : (v side).Sole m id)
    (hnone : ¬ ∃ c, (v side).marks[m]? = some (id, c)) :
    segmentsUnder id ((v side).queued.map (·.frame)) = [] ∧
      creditUnder id ((v side).queued.map (·.frame)) = 0 := by
  have hsaid : exchanged id ((v side).said m) = [] := by
    refine List.filter_eq_nil_iff.2 fun frame hframe hx => hnone ?_
    obtain ⟨out, hout, rfl⟩ := List.mem_map.1 hframe
    obtain ⟨hout, -⟩ := List.mem_filter.1 hout
    simp only [decide_eq_true_eq] at hx
    rcases (h.sound side).orderly.named out hout with ⟨hc, -⟩ | ⟨k, -, ⟨c, hmark⟩, -⟩
    · rw [Flag.forConn_of_isExchange hx.2] at hc
      cases hc
    · rw [hx.1] at hmark
      exact ⟨c, hsole k c hmark ▸ hmark⟩
  rw [← (under_exchanged id _).1, ← (under_exchanged id _).2, h.said_exchanged hsole, hsaid]
  exact ⟨rfl, rfl⟩

section Sole

variable (h : Joint settings v) (hm : (v side).Sole m id) (hn : (v side.other).Sole n id)
include h hm hn

/-- The segments heard are the beginning of those queued. -/
theorem heard_queued {t : Story} (ht : (v side).story m = some t) (hid : t.face.id = id) :
    segmentsOf t.heard <+: segmentsUnder id ((v side.other).queued.map (·.frame)) := by
  have hheard := h.under_heard hn (n := m) (s := t)
  have hdispatched := h.segments_dispatched side.other id
  rw [Pair.other_other] at hheard hdispatched
  exact (hheard hm ht hid).1.trans hdispatched

/-- When the connection has heard that the other end closed it, it has heard all that was queued. -/
theorem all_heard {t : Story} (ht : (v side).story m = some t) (hid : t.face.id = id)
    (hclosing : t.face.closing = true) (hopen : t.face.closed = false) :
    segmentsUnder id ((v side.other).queued.map (·.frame)) = segmentsOf t.heard := by
  have hheard := h.under_heard hn (n := m) (s := t)
  have hdispatched := h.all_dispatched hn (n := m) (s := t)
  rw [Pair.other_other] at hheard hdispatched
  rw [hdispatched ht hid hclosing, ((hheard hm ht hid).2.2 hopen).1]

/-- No more credit is heard than was queued. -/
theorem credit_heard {t : Story} (ht : (v side).story m = some t) (hid : t.face.id = id) :
    creditOf t.heard ≤ creditUnder id ((v side.other).queued.map (·.frame)) := by
  refine Nat.le_trans ?_ (h.credit_dispatched side id)
  have := h.under_heard hn (n := m) (s := t)
  rw [Pair.other_other] at this
  exact (this hm ht hid).2.1

/-- No more is reported than was queued. -/
theorem credit_le_bytes : creditUnder id ((v side.other).queued.map (·.frame)) ≤
    (bytesOf (segmentsUnder id ((v side).queued.map (·.frame)))).length := by
  by_cases hmark : ∃ c, (v side.other).marks[n]? = some (id, c)
  · obtain ⟨c, hmark⟩ := hmark
    obtain ⟨s, hs, hid, -⟩ := View.exists_story_of_mark hmark
    have hsound := (h.sound side.other).stories n s hs
    have hsaid := (h.under_queued hn hmark).2
    have htaken := length_bytesOf_le ((hsound.taken_prefix.trans (h.under_heard hm hn hs hid).1).trans
      (h.segments_dispatched side id))
    have hreported := hsound.reported
    rw [View.eq_of_story hs] at hreported htaken
    dsimp only at hreported htaken
    omega
  · rw [(h.under_queued_of_none hn hmark).2]
    exact Nat.zero_le _

/-- No more is queued than the first credit and what was reported. -/
theorem bytes_le_credit : (bytesOf (segmentsUnder id ((v side).queued.map (·.frame)))).length ≤
    settings.receiveWindow.toNat + creditUnder id ((v side.other).queued.map (·.frame)) := by
  by_cases hmark : ∃ c, (v side).marks[m]? = some (id, c)
  · obtain ⟨c, hmark⟩ := hmark
    obtain ⟨t, ht, hid, -⟩ := View.exists_story_of_mark hmark
    have hspent := ((h.sound side).stories m t ht).spent
    have hheard := h.credit_heard hm hn ht hid
    rw [(h.under_queued hm hmark).1]
    rw [View.eq_of_story ht] at hspent hheard
    dsimp only at hspent hheard
    omega
  · rw [(h.under_queued_of_none hm hmark).1]
    exact Nat.zero_le _

/-- As much as is queued on the other end has room in the receive window, beyond what is unread or
consumed; and as much credit is left as is queued on the other end and was not heard. -/
theorem room {t : Story} (ht : (v side).story m = some t) (hid : t.face.id = id) :
    (bytesOf (segmentsUnder id ((v side.other).queued.map (·.frame)))).length +
        t.face.receive.buffered + t.face.receive.consumed ≤
      settings.receiveWindow.toNat + (bytesOf t.taken).length ∧
    t.face.send.remaining.toNat + creditUnder id ((v side.other).queued.map (·.frame)) ≤
      settings.receiveWindow.toNat + creditOf t.heard := by
  have hsound := (h.sound side).stories m t ht
  have hspent := hsound.spent
  have hreported := hsound.reported
  have hmark := View.marks_getElem? (View.face_of_story ht)
  rw [hid] at hmark
  obtain ⟨hsegs, hcredit⟩ := h.under_queued hm hmark
  have hsaid : t.said = (v side).said m := by rw [View.eq_of_story ht]
  have hback := h.bytes_le_credit hn (n := m)
  rw [Pair.other_other] at hback
  have hback := hback hm
  have hthere := h.credit_le_bytes hm hn
  rw [hsaid, ← hsegs] at hspent
  rw [hsaid, ← hcredit] at hreported
  omega

/-! ### The accounts -/

/-- The credit of a direction is at most the receive window, and all of it if the accounts of both ends
are exact and both are open. -/
theorem account {t s : Story} (ht : (v side).story m = some t) (htid : t.face.id = id)
    (hs : (v side.other).story n = some s) (hsid : s.face.id = id) :
    t.face.send.remaining.toNat +
        (bytesOf (segmentsUnder id ((v side).pending (v side.other).dispatched.length))).length +
        s.face.receive.buffered + s.face.receive.consumed +
        creditUnder id ((v side.other).pending (v side).dispatched.length) ≤
      settings.receiveWindow.toNat ∧
    (t.face.closed = false → s.face.closed = false → t.Exact settings → s.Settled →
      t.face.send.remaining.toNat +
        (bytesOf (segmentsUnder id ((v side).pending (v side.other).dispatched.length))).length +
        s.face.receive.buffered + s.face.receive.consumed +
        creditUnder id ((v side.other).pending (v side).dispatched.length) =
      settings.receiveWindow.toNat) := by
  have htmark := View.marks_getElem? (View.face_of_story ht)
  have hsmark := View.marks_getElem? (View.face_of_story hs)
  rw [htid] at htmark
  rw [hsid] at hsmark
  have hback := h.heard side.other
  rw [Pair.other_other] at hback
  obtain ⟨lost, hsegs, hlost⟩ :=
    (h.sound side).orderly.segments_queued id (h.sound side).coherent hback
  obtain ⟨hcredit, hcredit'⟩ :=
    (h.sound side.other).orderly.credit_queued id (h.sound side.other).coherent (h.heard side)
  have hspent := ((h.sound side).stories m t ht).spent
  have hsound := (h.sound side.other).stories n s hs
  have hreported := hsound.reported
  obtain ⟨hheard, -, hheard'⟩ := h.under_heard hm hn hs hsid
  have hback := h.under_heard hn (n := m) (s := t)
  rw [Pair.other_other] at hback
  obtain ⟨-, hgranted, hgranted'⟩ := hback hm ht htid
  have htaken := length_bytesOf_le (hsound.taken_prefix.trans hheard)
  have hsaid : segmentsOf t.said = segmentsUnder id ((v side).queued.map (·.frame)) := by
    rw [(h.under_queued hm htmark).1, View.eq_of_story ht]
  have hreports : creditOf s.said = creditUnder id ((v side.other).queued.map (·.frame)) := by
    rw [(h.under_queued hn hsmark).2, View.eq_of_story hs]
  have hbytes := congrArg (fun l => (bytesOf l).length) hsegs
  simp only [bytesOf_append, List.length_append] at hbytes
  rw [hsaid, hbytes] at hspent
  rw [hreports] at hreported
  refine ⟨by omega, fun htopen hsopen hexact hsettled => ?_⟩
  rw [Story.Exact, hsaid, hbytes, (hgranted' htopen).2, hlost (h.running_of_open hm (htopen ▸ htmark))]
    at hexact
  rw [Story.Settled, hreports, hsound.taken_all hsopen, (hheard' hsopen).1,
    ← hcredit' (h.running_of_open hn (hsopen ▸ hsmark))] at hsettled
  simp only [bytesOf, List.flatMap_nil, List.length_nil] at hexact hsettled ⊢
  omega

end Sole

/-- Every segment that a connection heard was taken, and while it is open its accounts are exact. -/
theorem exact (h : Joint settings v) : ∀ (side : Side) (m n : Nat) (id : Int32), (v side).Sole m id →
    (v side.other).Sole n id → ∀ t, (v side).story m = some t → t.face.id = id →
    t.taken = segmentsOf t.heard ∧ (t.face.closed = false → t.Exact settings ∧ t.Settled) := by
  induction h with
  | start =>
    intro side m n id _ _ t ht
    simp [View.story, View.start] at ht
  | @step v w a h hs hheard ih =>
    have hnext := Joint.step a h hs hheard
    intro side m n id hm hn t ht hid
    rcases Pair.eq_or_eq_other a side with rfl | rfl
    · have hm' := hm
      have hn' := hn
      have ht' := ht
      rw [Function.update_self] at hm ht
      rw [update_other] at hn
      have hsole := hs.sole (h.sound side) hm
      rcases (hs.continues (h.sound side).filed (h.sound side).rooted m).comes_from ht with
        ⟨t₀, ht₀, hstep⟩ | ⟨hborn, -⟩
      · rw [(h.sound side).configured] at hstep
        rcases hstep with rfl | hstep
        · exact ih side m n id hsole hn t ht₀ hid
        have hid₀ : t₀.face.id = id := hstep.keeps.1 ▸ hid
        obtain ⟨htaken, hexact⟩ := ih side m n id hsole hn t₀ ht₀ hid₀
        have hsound := (h.sound side).stories m t₀ ht₀
        have hmark := View.marks_getElem? (View.face_of_story ht₀)
        rw [hid₀] at hmark
        have hroom := h.room hsole hn ht₀ hid₀
        have hheard := hnext.heard_queued hm' hn' ht' hid
        have hcredit := hnext.credit_heard hm' hn' ht' hid
        have hlimit := settings.receiveWindow.toNat_lt
        rw [update_other] at hheard hcredit
        refine ⟨hstep.taken_heard htaken fun frame data part hnew hseg hopen => ?_, fun hopen => ?_⟩
        · have hsegs : segmentsOf t.heard = segmentsOf t₀.heard ++ [⟨data, part⟩] := by
            simp [hnew, segmentsOf, segment?_of_isSegment hseg]
          have hrunning : t₀.face.receive.stopped = false := by
            rw [hsound.receive_stopped, hopen]
            cases hclosing : t₀.face.closing
            · rfl
            -- All that was queued had been heard before, so this segment would have come from nowhere.
            · have hall := h.all_heard hsole hn ht₀ hid₀ hclosing hopen
              have := (hall ▸ hheard).length_le
              rw [hsegs, List.length_append] at this
              exact absurd this (Nat.not_succ_le_self _)
          have hbytes := length_bytesOf_le hheard
          rw [hsegs, ← htaken, bytesOf_append, List.length_append, bytesOf_cons, List.length_append] at hbytes
          dsimp only at hbytes
          refine ⟨_, ReceiveWindow.write_fits hrunning ?_⟩
          rw [hsound.capacity]
          omega
        · have hopen₀ : t₀.face.closed = false := by
            cases hc : t₀.face.closed
            · rfl
            · rw [hstep.keeps.2.1 hc] at hopen
              cases hopen
          obtain ⟨hexact, hsettled⟩ := hexact hopen₀
          rw [h.running_of_open hsole (hopen₀ ▸ hmark)] at hstep
          refine ⟨hstep.exact hexact fun frame hnew hflag => ?_, hstep.settled hsound hsettled ?_⟩
          · have hframe : creditOf t.heard = creditOf t₀.heard + frame.window.toNat := by
              simp [hnew, Frame.credit, hflag]
            omega
          · have := length_bytesOf_le (hsound.taken_prefix.trans (h.heard_queued hsole hn ht₀ hid₀))
            omega
      · rw [(h.sound side).configured] at hborn
        exact ⟨by cases hborn <;> rfl, fun _ => ⟨hborn.exact, hborn.settled⟩⟩
    · rw [update_other] at hm ht
      rw [Pair.other_other, Function.update_self] at hn
      refine ih a.other m n id hm ?_ t ht hid
      rw [Pair.other_other]
      exact hs.sole (h.sound a) hn

end Joint

/-! ### Pairs of sessions -/

namespace Pair

variable {settings : Settings} {p₀ p : Pair} {side : Side} {id : Int32} {m n : Nat} {c d : Conn}

/-- The frames that one side has queued and the other has not acted on: on the link, with the writer or
the reader, or in the queue. -/
def underWay (side : Side) (p : Pair) : List Frame :=
  ((p.side side).started.drop (p.side side.other).dispatched.length ++
    (p.side side).outbox.state.toList).map (·.frame)

/-- The credit of the direction from the connection `c` on one side to `d` on the other. -/
def credit (side : Side) (id : Int32) (c d : Conn) (p : Pair) : Nat :=
  c.outflow.state.remaining.toNat + (bytesOf (segmentsUnder id (p.underWay side))).length +
    d.inflow.state.buffered + d.inflow.state.consumed + creditUnder id (p.underWay side.other)

theorem pending_views (side : Side) (p : Pair) :
    (p.views side).pending (p.views side.other).dispatched.length = p.underWay side := by
  rw [View.pending, views, views, view_dispatched, view_started]
  rfl

/-- On a connection whose id is used once at each end, in every run: the credit of a direction is the
receive window while both ends are open, and never more. Every segment that came in was taken; those
under way fit into the receive window, and the credit under way is granted in full. -/
theorem credit_conserved (h₀ : Initial settings p₀) (hr : Reachable p₀ p)
    (hm : (p.side side).Sole id m c) (hn : (p.side side.other).Sole id n d) :
    (c.closed = false → d.closed = false → p.credit side id c d = settings.receiveWindow.toNat) ∧
    p.credit side id c d ≤ settings.receiveWindow.toNat ∧
    (p.side side.other).accepted n = segmentsOf ((p.side side.other).heard n) ∧
    (∀ frame ∈ p.underWay side, frame.id = id → ∀ segment, frame.segment? = some segment →
      ∀ buffered incoming capacity, d.inflow.state.write id segment.data segment.part ≠
        .error (.windowOverflow id buffered incoming capacity)) ∧
    ∀ frame ∈ p.underWay side.other, frame.id = id → frame.flag = .msgSendOk →
      (c.outflow.state.grant frame.window).remaining.toNat =
        c.outflow.state.remaining.toNat + frame.window.toNat := by
  have h := hr.joint h₀
  obtain ⟨t, ht, htface, -⟩ := Session.exists_story hm.1
  obtain ⟨s, hs, hface, -, hheard, htaken, -⟩ := Session.exists_story hn.1
  have htid : t.face.id = id := by rw [htface]; exact hm.2.1
  have hid : s.face.id = id := by rw [hface]; exact hn.2.1
  obtain ⟨hle, heq⟩ := h.account (v := p.views) hm.view hn.view ht htid hs hid
  have hback := pending_views side.other p
  rw [other_other] at hback
  rw [pending_views, hback, htface, hface] at hle heq
  have hexact := h.exact side m n id hm.view hn.view t ht htid
  have hexact' := h.exact side.other n m id hn.view (by rw [other_other]; exact hm.view) s hs hid
  have hcapacity : d.inflow.state.capacity = settings.receiveWindow.toNat := by
    rw [← ((h.sound side.other).stories n s hs).capacity, hface]
    rfl
  have hlimit := settings.receiveWindow.toNat_lt
  have hcredit : p.credit side id c d ≤ settings.receiveWindow.toNat := hle
  refine ⟨fun hcopen hdopen => ?_, hcredit, ?_, ?_, ?_⟩
  · exact heq hcopen hdopen (hexact.2 (by rw [htface]; exact hcopen)).1
      (hexact'.2 (by rw [hface]; exact hdopen)).2
  · rw [← htaken, ← hheard]
    exact hexact'.1
  · intro frame hframe hfid segment hseg buffered incoming capacity hwrite
    have hlen := bytes_le_of_mem hframe hfid hseg
    unfold ReceiveWindow.write at hwrite
    split at hwrite
    · cases hwrite
    · split at hwrite
      · unfold credit at hcredit
        omega
      · cases hwrite
  · intro frame hframe hfid hflag
    have hlen := credit_le_of_mem hframe hfid hflag
    rw [SendWindow.grant_toNat]
    unfold credit at hcredit
    omega

/-- The left side opens a connection and writes, and the right side reads a part of it. -/
def partialRead : List (List (Side × Move)) :=
  [[(.left, .ask .openConn), (.right, .ask .accept)],
    [(.left, .ask (.write 0 [120, 121, 122]))],
    [(.right, .ask (.read 0 (.bytes 2)))]]

theorem partialRead_conserves : ∃ p c d, Reachable (fresh {}) p ∧ p.left.Sole 1 0 c ∧
    p.right.Sole 1 0 d ∧ d.inflow.state.buffered = 1 ∧ d.inflow.state.consumed = 2 ∧
    p.credit .left 1 c d = 33554432 := by
  have hplay : ((fresh {}).rounds partialRead).any (fun p =>
      p.left.conns.length == 1 && p.left.conns.all (fun c => c.id == 1 && !c.closed) &&
      p.right.conns.length == 1 && p.right.conns.all (fun d => d.id == 1 && !d.closed &&
        d.inflow.state.buffered == 1 && d.inflow.state.consumed == 2)) = true := by
    decide +kernel
  obtain ⟨p, hp, h⟩ := (Option.any_eq_true _ _).1 hplay
  simp only [Bool.and_eq_true, beq_iff_eq, List.all_eq_true, Bool.not_eq_true'] at h
  obtain ⟨⟨⟨hl, hlall⟩, hr⟩, hrall⟩ := h
  obtain ⟨c, hc⟩ := List.length_eq_one_iff.1 hl
  obtain ⟨d, hd⟩ := List.length_eq_one_iff.1 hr
  have hreach := Reachable.refl.rounds hp
  obtain ⟨hcid, hcopen⟩ := hlall c (hc ▸ List.mem_singleton_self c)
  obtain ⟨⟨⟨hdid, hdopen⟩, hbuffered⟩, hconsumed⟩ := hrall d (hd ▸ List.mem_singleton_self d)
  have hleft : (p.side .left).Sole 1 0 c := Session.sole_of_single hc hcid
  have hright : (p.side Side.left.other).Sole 1 0 d := Session.sole_of_single hd hdid
  exact ⟨p, c, d, hreach, hleft, hright, hbuffered, hconsumed,
    (credit_conserved (initial_fresh {}) hreach hleft hright).1 hcopen hdopen⟩

end Pair

end StreamMux
