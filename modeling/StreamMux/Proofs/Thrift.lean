import StreamMux.Proofs.Conservation
import StreamMux.Proofs.Tending

/-! No writer waits for credit that the reader keeps to itself. What was read is reported, but for less
than a segment while more is unread; so where nothing is under way and a writer waits, the credit that it
lacks is all unread. -/

namespace StreamMux

/-- Every window that the setters allow has room. -/
theorem Settings.receiveWindow_build_pos (changes : List Settings.Change) :
    0 < (build changes).receiveWindow.toNat := (inRange_build changes).receiveWindow

namespace Joint

variable {settings : Settings} {v : Side → View} {side : Side} {m n : Nat} {id : Int32}

/-- The other end closed before this end heard of it. -/
theorem closed_of_closing (h : Joint settings v) (hm : (v side).Sole m id) {t s : Story}
    (ht : (v side).story m = some t) (hs : (v side.other).story n = some s) (hid : s.face.id = id)
    (hclosing : s.face.closing = true) : t.face.closed = true := by
  obtain ⟨frame, hdispatched, hfid, hflag⟩ := (h.sound side.other).told_closing hs hclosing
  have hstarted := (h.heard side.other).subset hdispatched
  rw [Pair.other_other] at hstarted
  obtain ⟨out, hout, rfl⟩ := List.mem_map.1 hstarted
  have hqueued := (h.sound side).orderly.mem_queued hout
  have hconn := h.conn_of_named hm hqueued (hfid.trans hid) (by rw [hflag]; rfl)
  refine ((h.sound side).stories m t ht).said_closed out.frame ?_ hflag
  rw [View.eq_of_story ht]
  exact List.mem_map.2 ⟨out, List.mem_filter.2 ⟨hqueued, by simpa using hconn⟩, rfl⟩

end Joint

namespace Pair

variable {settings : Settings} {p₀ p : Pair} {side : Side} {id : Int32} {m n : Nat} {c d : Conn}

/-! ### Runs of one side -/

/-- What one side does to the link are moves of the other. -/
theorem reachable_carry {s₀ s : Session} (before after : Session) (h : Session.Reachable s₀ s) :
    Session.Reachable s₀ (carry before after s) := by
  unfold carry
  dsimp only
  have hread (count : Nat) {s : Session} (h : Session.Reachable s₀ s) :
      Session.Reachable s₀ (if count = 0 then s else s.takeOutput count) := by
    split
    · exact h
    · exact h.move (.takeOutput count) rfl
  have hwritten (bytes : Bytes) {s : Session} (h : Session.Reachable s₀ s) :
      Session.Reachable s₀ (if bytes = [] then s else s.deliver bytes) := by
    split
    · exact h
    · exact h.move (.deliver bytes) rfl
  have hended {s : Session} (h : Session.Reachable s₀ s) : Session.Reachable s₀
      (if after.outlet.shut ∧ ¬ before.outlet.shut then s.endInput .closed else s) := by
    split
    · exact h.move (.endInput .closed) rfl
    · exact h
  have hdropped {s : Session} (h : Session.Reachable s₀ s) : Session.Reachable s₀
      (if after.linkDropped ∧ ¬ before.linkDropped then s.breakOutput else s) := by
    split
    · exact h.move .breakOutput rfl
    · exact h
  exact hdropped (hended (hwritten _ (hread _ h)))

theorem side_run (side : Side) (fiber : Fiber) (first : Bool) (p : Pair) :
    (p.run side fiber first).side side = (p.side side).run fiber first := by
  have hturn := side_takeTurn side fiber first p
  have hgoes : (p.takeTurn side fiber first).2 = ((p.side side).takeTurn fiber first).2 := rfl
  unfold run Session.run
  rcases hp : p.takeTurn side fiber first with ⟨q, goesOn⟩
  rcases hs : (p.side side).takeTurn fiber first with ⟨s, goes⟩
  rw [hp, hs] at hturn hgoes
  cases hgoes
  cases goesOn
  · exact hturn
  · rw [← show q.side side = s from hturn]
    exact side_setSide ..

theorem side_other_run (side : Side) (fiber : Fiber) (first : Bool) (p : Pair) :
    (p.run side fiber first).side side.other =
      carry (p.side side) ((p.side side).takeTurn fiber first).1 (p.side side.other) := by
  rw [← side_other_takeTurn]
  unfold run
  rcases p.takeTurn side fiber first with ⟨q, goesOn⟩
  cases goesOn
  · rfl
  · exact side_other_setSide ..

/-- In a run of a pair each side makes a run of its own. -/
theorem Reachable.alone (h : Reachable p₀ p) (side : Side) :
    Session.Reachable (p₀.side side) (p.side side) := by
  induction h with
  | refl => exact .refl
  | @move p p' m h hm ih =>
    cases m with
    | onSide a m =>
      simp only [move?] at hm
      split at hm
      · obtain ⟨s, hs, rfl⟩ := Option.map_eq_some_iff.1 hm
        rcases eq_or_eq_other side a with rfl | rfl
        · rw [side_setSide]
          exact ih.move m hs
        · have := side_other_setSide side.other s p
          rw [other_other] at this
          rw [this]
          exact ih
      · cases hm
    | advance span =>
      cases hm
      cases side <;> exact ih.move (.advance span) rfl
    | run a fiber first =>
      simp only [move?] at hm
      split at hm
      · rename_i hready
        cases hm
        rcases eq_or_eq_other side a with rfl | rfl
        · rw [side_run]
          exact ih.move (.run fiber first) (if_pos hready)
        · have := side_other_run side.other fiber first p
          rw [other_other] at this
          rw [this]
          exact reachable_carry _ _ ih
      · cases hm

/-! ### Waiting for credit -/

/-- While both ends of a sole connection are open, what the reader took is reported. -/
theorem thrifty_of_open (h₀ : Initial settings p₀) (hr : Reachable p₀ p)
    (hm : (p.side side).Sole id m c) (hn : (p.side side.other).Sole id n d) (hc : c.closed = false)
    (hd : d.closed = false) : d.inflow.state.Thrifty settings.maxSegment := by
  have h := hr.joint h₀
  obtain ⟨t, ht, htface, -⟩ := Session.exists_story hm.1
  obtain ⟨s, hs, hface, -⟩ := Session.exists_story hn.1
  have hclosing : d.closing = false := by
    cases hclosing : d.closing
    · rfl
    · have := h.closed_of_closing (v := p.views) hm.view ht hs (by rw [hface]; exact hn.2.1)
        (by rw [hface]; exact hclosing)
      rw [htface] at this
      exact absurd (this.symm.trans hc) (by decide)
  obtain ⟨kind, address, capacity, wall, hstart⟩ := h₀ side.other
  have halone := hr.alone side.other
  rw [hstart] at halone
  have hthrifty := halone.tended.thrifty n d hn.1 nofun hd hclosing
  rwa [show (p.side side.other).settings = settings from (h.sound side.other).configured] at hthrifty

/-- While both ends are open and nothing is under way, the credit that the writer has not got is all with
the reader. -/
theorem account_at_rest (h₀ : Initial settings p₀) (hr : Reachable p₀ p)
    (hm : (p.side side).Sole id m c) (hn : (p.side side.other).Sole id n d) (hc : c.closed = false)
    (hd : d.closed = false)
    (hrest : ∀ frame ∈ p.underWay side ++ p.underWay side.other, frame.id ≠ id) :
    c.outflow.state.remaining.toNat + d.inflow.state.buffered + d.inflow.state.consumed =
      settings.receiveWindow.toNat := by
  have h := hr.joint h₀
  obtain ⟨t, ht, htface, -⟩ := Session.exists_story hm.1
  obtain ⟨s, hs, hface, -⟩ := Session.exists_story hn.1
  have htid : t.face.id = id := by rw [htface]; exact hm.2.1
  have hid : s.face.id = id := by rw [hface]; exact hn.2.1
  have htopen : t.face.closed = false := by rw [htface]; exact hc
  have hopen : s.face.closed = false := by rw [hface]; exact hd
  have hexact := h.exact side m n id hm.view hn.view t ht htid
  have hexact' := h.exact side.other n m id hn.view (by rw [other_other]; exact hm.view) s hs hid
  have haccount := (h.account (v := p.views) hm.view hn.view ht htid hs hid).2 htopen hopen
    (hexact.2 htopen).1 (hexact'.2 hopen).2
  have hback := pending_views side.other p
  rw [other_other] at hback
  have hnone (a : Side) (ha : ∀ frame ∈ p.underWay a, frame.id ≠ id) :
      segmentsUnder id (p.underWay a) = [] ∧ creditUnder id (p.underWay a) = 0 := by
    unfold segmentsUnder creditUnder
    rw [List.filter_eq_nil_iff.2 fun frame hframe => by simpa using ha frame hframe]
    exact ⟨rfl, rfl⟩
  rw [pending_views, hback, (hnone side fun f hf => hrest f (List.mem_append_left _ hf)).1,
    (hnone side.other fun f hf => hrest f (List.mem_append_right _ hf)).2, htface, hface] at haccount
  exact haccount

/-- No writer waits for credit that the reader keeps to itself. On a connection whose id is used once at
each end, in every run and while both ends are open: what was read is reported, but for less than a
segment while more is unread. So when nothing of the connection is under way and a write waits for credit,
the reader has something to read. -/
theorem no_credit_deadlock (changes : List Settings.Change) (h₀ : Initial (.build changes) p₀)
    (hr : Reachable p₀ p) (hm : (p.side side).Sole id m c) (hn : (p.side side.other).Sole id n d)
    (hc : c.closed = false) (hd : d.closed = false) :
    (d.inflow.state.consumed = 0 ∨
      0 < d.inflow.state.consumed ∧ d.inflow.state.consumed < (Settings.build changes).maxSegment ∧
        0 < d.inflow.state.buffered) ∧
    ((∀ frame ∈ p.underWay side ++ p.underWay side.other, frame.id ≠ id) →
      ∀ (k : Nat) (call : Call) (written : Nat), (p.side side).calls[k]? = some call →
        call.request.conn? = some m → call.stage = .crediting written →
        .call k ∉ (p.side side).ready → 0 < d.inflow.state.buffered) := by
  have hthrifty := thrifty_of_open h₀ hr hm hn hc hd
  refine ⟨?_, fun hrest k call written hcall hconn hstage hready => ?_⟩
  · unfold ReceiveWindow.Thrifty at hthrifty
    omega
  · obtain ⟨kind, address, capacity, wall, hstart⟩ := h₀ side
    have halone := hr.alone side
    rw [hstart] at halone
    have htended := halone.tended
    have hasleep : c.outflow.signal.asleep ≠ [] := by
      rcases (htended.rests k call hcall fun h => h).place with hover | hr | hparked
      · simp [Call.isOver, hstage] at hover
      · exact absurd hr hready
      · simp only [Session.Parked, hstage] at hparked
        obtain ⟨n', d', hn', hd', hmem⟩ := hparked
        cases hconn.symm.trans hn'
        cases hm.1.symm.trans hd'
        exact List.ne_nil_of_mem hmem
    have hnone := ((htended.calm m c hm.1).writers hasleep).2
    have haccount := account_at_rest h₀ hr hm hn hc hd hrest
    have hpos := Settings.receiveWindow_build_pos changes
    rw [hnone] at haccount
    unfold ReceiveWindow.Thrifty at hthrifty
    have : (0 : UInt32).toNat = 0 := rfl
    omega

/-- The left side opens a connection and writes more than the receive window holds, and the right side
reads a part of it. -/
def overlongWrite : List (List (Side × Move)) :=
  [[(.left, .ask .openConn), (.right, .ask .accept)],
    [(.left, .ask (.write 0 [120, 121, 122, 123, 124]))],
    [(.right, .ask (.read 0 (.bytes 2)))]]

theorem overlongWrite_has_unread : ∃ p c d, Reachable (fresh (.build [.receiveWindow 3])) p ∧
    p.left.Sole 1 0 c ∧ p.right.Sole 1 0 d ∧ p.underWay .left = [] ∧ p.underWay .right = [] ∧
    p.left.ready = [] ∧
    p.left.calls[1]? = some { request := .write 0 [120, 121, 122, 123, 124], stage := .crediting 3 } ∧
    d.inflow.state.consumed = 2 ∧ 0 < d.inflow.state.buffered := by
  have hplay : ((fresh (.build [.receiveWindow 3])).rounds overlongWrite).any (fun p =>
      p.left.conns.length == 1 && p.left.conns.all (fun c => c.id == 1 && !c.closed) &&
      p.right.conns.length == 1 && p.right.conns.all (fun d => d.id == 1 && !d.closed &&
        d.inflow.state.consumed == 2) &&
      (p.underWay .left == [] && p.underWay .right == [] && p.left.ready == [] &&
        p.left.calls[1]? ==
          some { request := .write 0 [120, 121, 122, 123, 124], stage := .crediting 3 })) = true := by
    decide +kernel
  obtain ⟨p, hp, h⟩ := (Option.any_eq_true _ _).1 hplay
  simp only [Bool.and_eq_true, beq_iff_eq, List.all_eq_true, Bool.not_eq_true'] at h
  obtain ⟨⟨⟨⟨hl, hlall⟩, hr⟩, hrall⟩, ⟨⟨hleft, hright⟩, hready⟩, hcall⟩ := h
  obtain ⟨c, hc⟩ := List.length_eq_one_iff.1 hl
  obtain ⟨d, hd⟩ := List.length_eq_one_iff.1 hr
  have hreach := Reachable.refl.rounds hp
  obtain ⟨hcid, hcopen⟩ := hlall c (hc ▸ List.mem_singleton_self c)
  obtain ⟨⟨hdid, hdopen⟩, hconsumed⟩ := hrall d (hd ▸ List.mem_singleton_self d)
  have hm : (p.side .left).Sole 1 0 c := Session.sole_of_single hc hcid
  have hn : (p.side Side.left.other).Sole 1 0 d := Session.sole_of_single hd hdid
  have hwait := (no_credit_deadlock [.receiveWindow 3] (initial_fresh _) hreach hm hn hcopen hdopen).2
  refine ⟨p, c, d, hreach, hm, hn, hleft, hright, hready, hcall, hconsumed, ?_⟩
  refine hwait (fun frame hframe => ?_) 1 _ 3 hcall rfl rfl ?_
  · rw [show p.underWay .left = [] from hleft, show p.underWay Side.left.other = [] from hright] at hframe
    cases hframe
  · rw [show (p.side .left).ready = [] from hready]
    exact List.not_mem_nil

end Pair

end StreamMux
