import StreamMux.Proofs.Pending

/-! Streams arrive whole. On a connection whose id is used once at each end, what the receive window of
one end took is a beginning of what the writes of the other end queued, and the readers are given it in
order. Once the other end has closed the connection, it is all that was queued, so that a reader who
sees the end has been given everything. -/

namespace StreamMux

/-- All frames queued for a connection carry its id. -/
theorem View.Sound.said_named {settings : Settings} {v : View} (h : v.Sound settings) {m : Nat} {id : Int32}
    {c : Bool} (hmark : v.marks[m]? = some (id, c)) : ∀ frame ∈ v.said m, frame.id = id := by
  intro frame hf
  obtain ⟨out, hout, rfl⟩ := List.mem_map.1 hf
  obtain ⟨hout, hconn⟩ := List.mem_filter.1 hout
  rcases h.orderly.named out hout with ⟨-, hnone⟩ | ⟨k, hk, ⟨c', hmark'⟩, -⟩
  · simp [hnone] at hconn
  · obtain rfl : k = m := by simpa [hk] using hconn
    rw [hmark] at hmark'
    exact (Prod.mk.inj (Option.some.inj hmark')).1.symm

/-- What a connection heard came in. -/
theorem View.Sound.mem_dispatched {settings : Settings} {v : View} (h : v.Sound settings) {n : Nat} {s : Story}
    (hs : v.story n = some s) {frame : Frame} (hframe : frame ∈ s.heard) : frame ∈ v.dispatched := by
  rw [View.eq_of_story hs] at hframe
  rw [h.dispatched]
  obtain ⟨pair, hpair, rfl⟩ := List.mem_map.1 (h.heard n ▸ hframe)
  exact List.mem_map.2 ⟨pair, (List.mem_filter.1 hpair).1, rfl⟩

/-- A connection that the other end has closed was told so under its id. -/
theorem View.Sound.told_closing {settings : Settings} {v : View} (h : v.Sound settings) {n : Nat} {s : Story}
    (hs : v.story n = some s) (hclosing : s.face.closing = true) :
    ∃ frame ∈ v.dispatched, frame.id = s.face.id ∧ frame.flag = .connClose := by
  obtain ⟨frame, hframe, hflag⟩ := (h.stories n s hs).closing hclosing
  exact ⟨frame, h.mem_dispatched hs hframe, h.named n s hs frame hframe, hflag⟩

/-- In the order of the queue, and so in its normal lane, a connection exchanges nothing after the word that
it is closed. -/
theorem View.Sound.closes_last {settings : Settings} {v : View} (h : v.Sound settings) {m : Nat} {s : Story}
    (hs : v.story m = some s) :
    (View.onLane .normal v.queued).Pairwise fun a b => a.conn = some m → b.conn = some m →
      a.frame.flag = .connClose → b.frame.flag.isExchange = false := by
  have hlast := (h.stories m s hs).said_last
  rw [View.eq_of_story hs] at hlast
  have := List.pairwise_filter.1 (List.pairwise_map.1 hlast)
  exact List.Pairwise.filter _ (this.imp fun hab ha hb => hab (by simpa using ha) (by simpa using hb))

namespace Joint

variable {settings : Settings} {v : Side → View} {side : Side} {m n : Nat} {id : Int32}

/-- Whatever brings segments or credit under the id is queued for the connection. -/
theorem under_queued (h : Joint settings v) (hsole : (v side).Sole m id) {c : Bool}
    (hmark : (v side).marks[m]? = some (id, c)) :
    segmentsUnder id ((v side).queued.map (·.frame)) = segmentsOf ((v side).said m) ∧
      creditUnder id ((v side).queued.map (·.frame)) = creditOf ((v side).said m) := by
  obtain ⟨hs, hc⟩ := under_of_named ((h.sound side).said_named hmark)
  rw [← hs, ← hc, ← (under_exchanged id _).1, ← (under_exchanged id _).2, ← (under_exchanged id _).1,
    ← (under_exchanged id _).2, h.said_exchanged hsole]
  exact ⟨rfl, rfl⟩

/-- All frames heard by the connection carry its id. -/
theorem heard_named (h : Joint settings v) {s : Story} (hs : (v side).story n = some s) :
    ∀ frame ∈ (v side).heard n, frame.id = s.face.id := by
  have := (h.sound side).named n s hs
  rw [View.eq_of_story hs] at this
  exact this

/-- What the connection has heard is what came in under its id, or a beginning of it once it is closed. -/
theorem under_heard (h : Joint settings v) (hm : (v side).Sole m id) (hn : (v side.other).Sole n id)
    {s : Story} (hs : (v side.other).story n = some s) (hid : s.face.id = id) :
    segmentsOf s.heard <+: segmentsUnder id (v side.other).dispatched ∧
      creditOf s.heard ≤ creditUnder id (v side.other).dispatched ∧
      (s.face.closed = false → segmentsOf s.heard = segmentsUnder id (v side.other).dispatched ∧
        creditOf s.heard = creditUnder id (v side.other).dispatched) := by
  have hheard : s.heard = (v side.other).heard n := by rw [View.eq_of_story hs]
  obtain ⟨hsegs, hcredit⟩ := under_of_named (hid ▸ h.heard_named hs)
  obtain ⟨hpre, hall⟩ := h.follows hm hn
  rw [hheard, ← hsegs, ← hcredit, ← (under_exchanged id _).1, ← (under_exchanged id _).2,
    ← (under_exchanged id _).1, ← (under_exchanged id _).2]
  refine ⟨hpre.filterMap _, ?_, fun hopen => ?_⟩
  · obtain ⟨rest, hr⟩ := hpre
    rw [← hr, creditOf_append]
    exact Nat.le_add_right ..
  · have heq := hall.resolve_left (by
      rw [View.marks_getElem? (View.face_of_story hs), hopen]
      simp)
    rw [heq]
    exact ⟨rfl, rfl⟩

/-- The receive window has taken a beginning of what was queued. -/
theorem taken_prefix (h : Joint settings v) (hm : (v side).Sole m id) {c : Bool}
    (hmark : (v side).marks[m]? = some (id, c)) (hn : (v side.other).Sole n id) {s : Story}
    (hs : (v side.other).story n = some s) (hid : s.face.id = id) :
    s.taken <+: segmentsOf ((v side).said m) := by
  have hsound := (h.sound side.other).stories n s hs
  have hdis := h.heard side.other
  rw [Pair.other_other] at hdis
  obtain ⟨lost, hq, -⟩ :=
    (h.sound side).orderly.segments_queued id (h.sound side).coherent hdis
  rw [← (h.under_queued hm hmark).1, hq, List.append_assoc]
  exact (hsound.taken_prefix.trans (h.under_heard hm hn hs hid).1).trans (List.prefix_append ..)

/-- Whatever is queued for some connection under the id is queued for this one. -/
theorem conn_of_named (h : Joint settings v) (hm : (v side).Sole m id) {out : Outgoing}
    (hout : out ∈ (v side).queued) (hid : out.frame.id = id) (hf : out.frame.flag.forConn = true) :
    out.conn = some m := by
  obtain ⟨k, f, hk, hface, hfid⟩ := (h.sound side).orderly.exists_face hout hf
  have hmark := View.marks_getElem? hface
  rw [hfid, hid] at hmark
  rw [hk, hm k f.closed hmark]

/-- Nothing is exchanged under the id behind the word that the connection is closed. -/
theorem nothing_after_close (h : Joint settings v) (hm : (v side).Sole m id)
    {heard later : List Outgoing}
    (hq : View.onLane .normal (v side).queued = View.onLane .normal heard ++ later)
    (hclose : ∃ out ∈ heard, out.frame.id = id ∧ out.frame.flag = .connClose) :
    segmentsUnder id (later.map (·.frame)) = [] := by
  obtain ⟨close, hmem, hid, hflag⟩ := hclose
  have hin {out : Outgoing} (hout : out ∈ View.onLane .normal heard ++ later) : out ∈ (v side).queued := by
    rw [← hq] at hout
    exact (List.mem_filter.1 hout).1
  have hlane : close ∈ View.onLane .normal heard := by
    refine List.mem_filter.2 ⟨hmem, ?_⟩
    simp [Outgoing.lane, hflag, Flag.isPriority]
  have hconn := h.conn_of_named hm (hin (List.mem_append_left _ hlane)) hid (by rw [hflag]; rfl)
  obtain ⟨s, hs⟩ : ∃ s, (v side).story m = some s := by
    obtain ⟨k, f, hk, hface, -⟩ :=
      (h.sound side).orderly.exists_face (hin (List.mem_append_left _ hlane)) (by rw [hflag]; rfl)
    obtain rfl : m = k := Option.some.inj (hconn.symm.trans hk)
    exact (View.exists_story hface).imp fun s h => h.1
  have horder := (h.sound side).closes_last hs
  rw [hq, List.pairwise_append] at horder
  refine List.filterMap_eq_nil_iff.2 fun frame hframe => ?_
  obtain ⟨hframe, hfid⟩ := List.mem_filter.1 hframe
  obtain ⟨out, hout, rfl⟩ := List.mem_map.1 hframe
  cases hx : out.frame.flag.isExchange
  · exact (eq_none_and_zero_of_not_exchange hx).1
  · have := horder.2.2 close hlane out hout hconn
      (h.conn_of_named hm (hin (List.mem_append_right _ hout)) (by simpa using hfid)
        (Flag.forConn_of_isExchange hx)) hflag
    rw [hx] at this
    cases this

/-- When the connection has heard that the other end closed it, all segments queued for it came in. -/
theorem all_dispatched (h : Joint settings v) (hm : (v side).Sole m id) {s : Story}
    (hs : (v side.other).story n = some s) (hid : s.face.id = id) (hclosing : s.face.closing = true) :
    segmentsUnder id ((v side).queued.map (·.frame)) = segmentsUnder id (v side.other).dispatched := by
  have hdis := h.heard side.other
  rw [Pair.other_other] at hdis
  -- The word that the connection is closed came in under its id, so it was started by then.
  obtain ⟨frame, hdispatched, hfid, hflag⟩ := (h.sound side.other).told_closing hs hclosing
  obtain ⟨rest, hrest⟩ := hdis
  obtain ⟨k, hk⟩ : ∃ k, k = (v side.other).dispatched.length := ⟨_, rfl⟩
  have htake : (v side.other).dispatched = ((v side).started.take k).map (·.frame) := by
    rw [List.map_take, ← hrest, hk, List.take_left]
  obtain ⟨lost, hq, -⟩ := (h.sound side).orderly.queue_onLane (h.sound side).coherent .normal
  have hsplit : View.onLane .normal (v side).queued = View.onLane .normal ((v side).started.take k) ++
      (View.onLane .normal ((v side).started.drop k ++ (v side).outbox.toList) ++ lost) := by
    rw [hq, ← List.append_assoc, ← View.onLane_append, ← List.append_assoc, List.take_append_drop]
  have hnothing := h.nothing_after_close hm hsplit (by
    rw [htake] at hdispatched
    obtain ⟨out, hout, rfl⟩ := List.mem_map.1 hdispatched
    exact ⟨out, hout, hfid.trans hid, hflag⟩)
  rw [← View.segmentsUnder_onLane, hsplit, List.map_append, segmentsUnder_append, hnothing,
    List.append_nil, View.segmentsUnder_onLane, htake]

/-- When the other end has closed the connection and this end has not, the receive window has taken all
that was queued. -/
theorem taken_all (h : Joint settings v) (hm : (v side).Sole m id) {c : Bool}
    (hmark : (v side).marks[m]? = some (id, c)) (hn : (v side.other).Sole n id) {s : Story}
    (hs : (v side.other).story n = some s) (hid : s.face.id = id) (hclosing : s.face.closing = true)
    (hopen : s.face.closed = false) : s.taken = segmentsOf ((v side).said m) := by
  rw [((h.sound side.other).stories n s hs).taken_all hopen,
    ((h.under_heard hm hn hs hid).2.2 hopen).1, ← (h.under_queued hm hmark).1,
    h.all_dispatched hm hs hid hclosing]

end Joint

/-! ### Pairs of sessions -/

namespace Session

/-- The connection `n` is `c`, and the only one of the session under the id. -/
def Sole (id : Int32) (n : Nat) (c : Conn) (s : Session) : Prop :=
  s.conns[n]? = some c ∧ c.id = id ∧ ∀ k d, s.conns[k]? = some d → d.id = id → k = n

/-- The segments that the writes on a connection queued. -/
def written (n : Nat) (s : Session) : List Segment := segmentsOf (s.said n)

variable {s : Session} {id : Int32} {n : Nat} {c : Conn}

theorem Sole.view (h : s.Sole id n c) : s.view.Sole n id := by
  intro k closed hk
  obtain ⟨d, hd, hid, -⟩ := exists_of_mark hk
  exact h.2.2 k d hd hid

theorem sole_of_single (h : s.conns = [c]) (hid : c.id = id) : s.Sole id 0 c := by
  refine ⟨by rw [h]; rfl, hid, fun k d hk _ => ?_⟩
  rw [h] at hk
  cases k with
  | zero => rfl
  | succ k => cases hk

/-- The story of a connection, from the trace of its session. -/
theorem exists_story (h : s.conns[n]? = some c) : ∃ t, s.view.story n = some t ∧ t.face = c.face ∧
    t.said = s.said n ∧ t.heard = s.heard n ∧ t.taken = s.accepted n ∧ t.given = s.handedOut n := by
  obtain ⟨t, ht, hface⟩ := View.exists_story (v := s.view) (n := n) (f := c.face) (by simp [view, h])
  refine ⟨t, ht, hface, ?_⟩
  rw [View.eq_of_story ht]
  have hhistory {β : Type} (pick : Event → Option β) (hpick : ∀ e, e.isTraffic = false → pick e = none) :
      history pick s.view.deeds = history pick s.trace := history_filter hpick s.trace
  refine ⟨?_, ?_, ?_, ?_⟩
  · rw [View.said, View.queued, hhistory _ fun e he => by cases e <;> first | rfl | cases he]
    rfl
  · exact hhistory _ fun e he => by cases e <;> first | rfl | cases he
  · exact hhistory _ fun e he => by cases e <;> first | rfl | cases he
  · exact hhistory _ fun e he => by cases e <;> first | rfl | cases he

end Session

namespace Pair

variable {settings : Settings} {p₀ p : Pair} {side : Side} {id : Int32} {m n : Nat} {c d : Conn}

/-- On a connection whose id is used once at each end, in every run: what the receive window of one end
has taken is a beginning of what the writes of the other end queued; the readers have been given it in
order, and the window holds the rest. Once the other end has closed the connection and this end has not,
all that was queued has been taken, and a reader that is given the end has all of it before. -/
theorem streams_arrive_whole (h₀ : Initial settings p₀) (hr : Reachable p₀ p)
    (hm : (p.side side).Sole id m c) (hn : (p.side side.other).Sole id n d) :
    (p.side side.other).accepted n <+: (p.side side).written m ∧
    Dealt ((p.side side.other).accepted n) ((p.side side.other).handedOut n) d.inflow.state.segments ∧
    ((p.side side.other).handedOut n).flatMap Taken.data <+: bytesOf ((p.side side).written m) ∧
    (d.closing = true → d.closed = false →
      (p.side side.other).accepted n = (p.side side).written m ∧
      ∀ call ∈ (p.side side.other).calls, ∀ want taken, call.request = .read n want →
        call.stage = .over (.taken taken) → want.isEnd taken = true →
        ((p.side side.other).handedOut n).flatMap Taken.data = bytesOf ((p.side side).written m)) := by
  have h := hr.joint h₀
  obtain ⟨t, ht, htface, htsaid, -⟩ := Session.exists_story hm.1
  obtain ⟨s, hs, hface, -, -, htaken, hgiven⟩ := Session.exists_story hn.1
  have htid : t.face.id = id := by rw [htface]; exact hm.2.1
  have hid : s.face.id = id := by rw [hface]; exact hn.2.1
  have hmark := View.marks_getElem? (View.face_of_story ht)
  rw [htid] at hmark
  have hpre := h.taken_prefix (v := p.views) hm.view hmark hn.view hs hid
  have hsaid : (p.views side).said m = (p.side side).said m := by
    rw [← htsaid, View.eq_of_story ht]
    rfl
  rw [hsaid, htaken] at hpre
  have hdealt := ((h.sound side.other).stories n s hs).dealt
  rw [htaken, hgiven, hface] at hdealt
  have hbytes := hdealt.bytes_eq
  refine ⟨hpre, hdealt, ?_, fun hclosing hopen => ?_⟩
  · obtain ⟨rest, hrest⟩ := hpre
    rw [Session.written, ← hrest, bytesOf_append, hbytes, List.append_assoc]
    exact List.prefix_append ..
  · have hall := h.taken_all (v := p.views) hm.view hmark hn.view hs hid (by rw [hface]; exact hclosing)
      (by rw [hface]; exact hopen)
    rw [hsaid, htaken] at hall
    refine ⟨hall, fun call hcall want taken hreq hstage hend => ?_⟩
    obtain ⟨s', hs', hdrained⟩ := (h.sound side.other).drained n want taken
      (List.mem_map.2 ⟨call, hcall, by rw [hreq, hstage]⟩) hend
    have hs' : (p.side side.other).view.story n = some s' := hs'
    rw [show (p.side side.other).view.story n = some s from hs] at hs'
    cases hs'
    have hempty : d.face.receive.segments = [] := by
      have := hdrained.2
      rwa [hface] at this
    rw [hempty] at hbytes
    rw [Session.written, ← hall, hbytes]
    exact (List.append_nil _).symm

/-- The left side opens a connection, writes and closes; the right side reads before and after. -/
def conversation : List (List (Side × Move)) :=
  [[(.left, .ask .openConn), (.right, .ask .accept)],
    [(.left, .ask (.write 0 [120, 121, 122]))],
    [(.right, .ask (.read 0 (.bytes 2)))],
    [(.left, .closeConn 0)],
    [(.right, .ask (.read 0 (.bytes 4)))]]

theorem conversation_arrives_whole : ∃ p c d, Reachable (fresh {}) p ∧ p.left.Sole 1 0 c ∧
    p.right.Sole 1 0 d ∧ p.right.accepted 0 = p.left.written 0 ∧
    bytesOf (p.left.written 0) = [120, 121, 122] := by
  have hplay : ((fresh {}).rounds conversation).any (fun p =>
      p.left.conns.length == 1 && p.left.conns.all (·.id == 1) &&
      p.right.conns.length == 1 && p.right.conns.all (fun d => d.id == 1 && d.closing && !d.closed) &&
      bytesOf (p.left.written 0) == [120, 121, 122]) = true := by
    decide +kernel
  obtain ⟨p, hp, h⟩ := (Option.any_eq_true _ _).1 hplay
  simp only [Bool.and_eq_true, beq_iff_eq, List.all_eq_true] at h
  obtain ⟨⟨⟨⟨hl, hlid⟩, hr⟩, hrid⟩, hbytes⟩ := h
  obtain ⟨c, hc⟩ := List.length_eq_one_iff.1 hl
  obtain ⟨d, hd⟩ := List.length_eq_one_iff.1 hr
  have hreach := Reachable.refl.rounds hp
  have hd' := hrid d (hd ▸ List.mem_singleton_self d)
  simp only [Bool.not_eq_true'] at hd'
  have hleft : (p.side .left).Sole 1 0 c := Session.sole_of_single hc (hlid c (hc ▸ List.mem_singleton_self c))
  have hright : (p.side Side.left.other).Sole 1 0 d := Session.sole_of_single hd hd'.1.1
  exact ⟨p, c, d, hreach, hleft, hright,
    ((streams_arrive_whole (initial_fresh {}) hreach hleft hright).2.2.2
      hd'.1.2 hd'.2).1, hbytes⟩

end Pair

end StreamMux
