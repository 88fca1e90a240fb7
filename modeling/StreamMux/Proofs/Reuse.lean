import StreamMux.Proofs.Room

/-! Ids that are used again. As soon as one side has closed a connection it may use the id for another one,
while frames of the first are still on their way. What is routed to a connection comes from its counterpart
all the same, but for what a connection hears before its peer has accepted it. As in all runs of two sessions, a
fiber runs from one wait to the next and no other comes between. -/

namespace StreamMux

namespace Session

/-- Of the connections under the id the user asked for one at most, by a look at each pair. -/
theorem askedOnce_of_pairwise {id : Int32} {s : Session}
    (h : s.conns.Pairwise fun c d => ¬ (c.id = id ∧ d.id = id ∧ c.reply ≠ .unasked ∧ d.reply ≠ .unasked)) :
    s.AskedOnce id := by
  intro m k c d hc hd hcid hdid hcasked hdasked
  obtain ⟨hm, rfl⟩ := List.getElem?_eq_some_iff.1 hc
  obtain ⟨hk, rfl⟩ := List.getElem?_eq_some_iff.1 hd
  rw [List.pairwise_iff_getElem] at h
  rcases Nat.lt_trichotomy m k with hlt | heq | hgt
  · exact absurd ⟨hcid, hdid, hcasked, hdasked⟩ (h m k hm hk hlt)
  · exact heq
  · exact absurd ⟨hdid, hcid, hdasked, hcasked⟩ (h k m hk hm hgt)

end Session

namespace Pair

variable {settings : Settings} {p₀ p : Pair}

/-- The `i`-th frame that came in at the side was routed to the connection `n`, and the other side had sent it
on behalf of the connection `m`. -/
def Delivered (side : Side) (i : Nat) (out : Outgoing) (m n : Nat) (p : Pair) : Prop :=
  (p.side side).hearings[i]? = some (out.frame, some n) ∧ (p.side side.other).started[i]? = some out ∧
    out.conn = some m

/-- Each frame that is routed to a connection was sent by the peer on behalf of one of its connections, both
under the id of the frame. As long as neither user has asked twice for a connection under an id, no window is
overrun under it before the peer has accepted its connection. In every run that overruns none, the frames were
sent for the one counterpart of the connection, an answer for what became of its own request. Only a connection
that the user asked for and that is not accepted yet may be given data, credit or a close that was sent for
another one. -/
theorem frames_meet_counterparts (h₀ : Initial settings p₀) (hr : Reachable p₀ p) :
    (∀ (side : Side) (i n : Nat) (frame : Frame), (p.side side).hearings[i]? = some (frame, some n) →
      ∃ out m c d, out.frame = frame ∧ p.Delivered side i out m n ∧
        (p.side side).conns[n]? = some c ∧ c.id = frame.id ∧
        (p.side side.other).conns[m]? = some d ∧ d.id = frame.id) ∧
    ∀ id : Int32,
      ((∀ side, (p.side side).AskedOnce id) → ∀ side, ¬ (p.side side).Overrun id) ∧
      ((∀ side, ¬ (p.side side).Overrun id) → ∀ (side : Side) (i : Nat) (out : Outgoing) (m n : Nat),
        p.Delivered side i out m n → out.frame.id = id →
        (out.frame.flag.isAnswer = true → (p.side side).Became (p.side side.other) n m) ∧
        ((p.side side).Counterparts (p.side side.other) n m ∧
            (∀ k, (p.side side).Counterparts (p.side side.other) n k → k = m) ∨
          out.frame.flag.isAnswer = false ∧ (p.side side).Unaccepted i n)) := by
  have h := hr.joint h₀
  have hhearings (s : Session) : s.view.hearings = s.hearings := hearings_filter s.trace
  have hconn {s : Session} {k : Nat} {f : Face} (hf : s.view.faces[k]? = some f) :
      ∃ c, s.conns[k]? = some c ∧ c.face = f := by
    simpa [Session.view] using hf
  refine ⟨fun side i n frame hi => ?_, fun id => ⟨hr.not_overrun h₀, fun hroom side i out m n hd hid => ?_⟩⟩
  · rw [← hhearings] at hi
    obtain ⟨out, m, f, hout, rfl, hm, hf, hfid⟩ := h.sent hi
    obtain ⟨-, g, hg, hgid⟩ := h.routed (List.mem_of_getElem? hi)
    obtain ⟨c, hc, rfl⟩ := hconn hg
    obtain ⟨d, hd, rfl⟩ := hconn hf
    rw [hhearings] at hi
    rw [views, view_started] at hout
    exact ⟨out, m, c, d, rfl, ⟨hi, hout, hm⟩, hc, hgid, hd, hfid⟩
  · obtain ⟨hi, hout, hm⟩ := hd
    have hkept := h.kept (fun a hover => hroom a (Session.overrun_view.1 hover)) side
    have hasked : (p.side side).view.askedFor = (p.side side).askedFor :=
      history_filter (fun e he => by cases e <;> first | rfl | cases he) _
    have hcounterparts (m : Nat) : View.Counterparts (p.views side) (p.views side.other) n m ↔
        (p.side side).Counterparts (p.side side.other) n m :=
      or_congr (became_view ..) (became_view ..)
    have hunique {m : Nat} (hm : View.Counterparts (p.views side) (p.views side.other) n m) :
        (p.side side).Counterparts (p.side side.other) n m ∧
          ∀ k, (p.side side).Counterparts (p.side side.other) n k → k = m :=
      ⟨(hcounterparts m).1 hm, fun k hk =>
        hm.unique (h.sound side) hkept.listed ((hcounterparts k).2 hk)⟩
    obtain ⟨sent, k, hsent, -, hk, hanswer, hother⟩ :=
      hkept.meets.origin i n out.frame (by rw [views, hhearings]; exact hi) hid
    -- The frame that was sent as the `i`-th is the one that came in as the `i`-th.
    rw [views, view_started, hout] at hsent
    cases hsent
    rw [hm] at hk
    cases hk
    refine ⟨fun ha => (became_view ..).1 (hanswer ha), ?_⟩
    cases ha : out.frame.flag.isAnswer
    · refine (hother ha).imp hunique fun hun => ⟨rfl, ?_⟩
      rw [View.Unaccepted, views, hasked, hhearings] at hun
      exact hun
    · exact .inl (hunique (.inl (hanswer ha)))

/-- A connection that the left side opened is closed by both sides, and the right side opens one under the
same id and writes on it. -/
def reopening : List (List (Side × Move)) :=
  [[(.left, .ask .openConn), (.right, .ask .accept)],
    [(.left, .closeConn 0), (.right, .closeConn 0)],
    [(.right, .ask .openConn), (.left, .ask .accept)],
    [(.right, .ask (.write 1 [120]))]]

theorem reopening_meets_counterpart : ∃ p, Reachable (fresh {}) p ∧
    (∀ side, (p.side side).AskedOnce 1) ∧ (∀ side, ¬ (p.side side).Overrun 1) ∧ ∃ (i : Nat) (out : Outgoing),
    p.Delivered .left i out 1 1 ∧ out.frame.id = 1 ∧ out.frame.flag = .newMsg ∧
      p.left.Counterparts p.right 1 1 := by
  have hplay : ((fresh {}).rounds reopening).any (fun p =>
      decide (p.left.conns.Pairwise fun c d =>
        ¬ (c.id = 1 ∧ d.id = 1 ∧ c.reply ≠ .unasked ∧ d.reply ≠ .unasked)) &&
      decide (p.right.conns.Pairwise fun c d =>
        ¬ (c.id = 1 ∧ d.id = 1 ∧ c.reply ≠ .unasked ∧ d.reply ≠ .unasked)) &&
      (p.left.hearings[5]?).any (fun h => h.2 == some 1 && h.1.id == 1 && h.1.flag == .newMsg) &&
      decide (p.left.Counterparts p.right 1 1 ∧ 1 ∈ p.left.askedFor)) = true := by
    decide +kernel
  obtain ⟨p, hp, h⟩ := (Option.any_eq_true _ _).1 hplay
  simp only [Bool.and_eq_true, decide_eq_true_eq] at h
  obtain ⟨⟨⟨hleft, hright⟩, hheard⟩, hcounterparts, hasked⟩ := h
  obtain ⟨⟨frame, target⟩, hi, hframe⟩ := (Option.any_eq_true _ _).1 hheard
  simp only [Bool.and_eq_true, beq_iff_eq] at hframe
  obtain ⟨⟨rfl, hid⟩, hflag⟩ := hframe
  have hr := Reachable.refl.rounds hp
  have honce (side : Side) : (p.side side).AskedOnce 1 := by
    cases side
    · exact Session.askedOnce_of_pairwise hleft
    · exact Session.askedOnce_of_pairwise hright
  obtain ⟨hsent, hmeets⟩ := frames_meet_counterparts (initial_fresh {}) hr
  obtain ⟨hroom, hmeets⟩ := hmeets 1
  have hroom := hroom honce
  obtain ⟨out, m, -, -, rfl, hd, -⟩ := hsent .left 5 1 frame hi
  rcases (hmeets hroom .left 5 out m 1 hd hid).2 with ⟨-, hunique⟩ | ⟨-, hun⟩
  · obtain rfl := hunique 1 hcounterparts
    exact ⟨p, hr, honce, hroom, 5, out, hd, hid, hflag, hcounterparts⟩
  · exact absurd hasked hun.1

/-- The left side reads and writes on a connection that both sides then close, and what it has queued
comes in on the next one that the right side opens. -/
def lateFrames : List PairMove :=
  [.onSide .left (.ask (.read 0 (.bytes 2))), .onSide .left (.ask (.write 0 [99])),
    .run .left (.call 1) true, .run .left (.call 1) true,
    .run .left (.call 2) true, .run .left (.call 2) true, .run .left (.call 2) true,
    .onSide .left (.closeConn 0), .onSide .right (.closeConn 0), .onSide .right (.ask .openConn)]

/-- Data, credit and a close that were sent on an earlier connection with the id. -/
theorem late_frames_meet_successor : ∃ p, Reachable (fresh {}) p ∧
    p.right.Counterparts p.left 1 1 ∧ ¬ p.right.Counterparts p.left 1 0 ∧
    ∀ flag ∈ [Flag.msgSendOk, .newMsg, .connClose], ∃ (i : Nat) (out : Outgoing),
      p.right.hearings[i]? = some (out.frame, some 1) ∧ p.left.started[i]? = some out ∧
        out.frame.flag = flag ∧ out.conn = some 0 := by
  have hplay : (((fresh {}).rounds [[(.left, .ask .openConn), (.right, .ask .accept)],
      [(.right, .ask (.write 0 [97, 98]))]]).bind fun q => lateFrames.foldlM move? q).any (fun q =>
      let p := q.settle 80
      decide (p.right.Counterparts p.left 1 1 ∧ ¬ p.right.Counterparts p.left 1 0) &&
      [(Flag.msgSendOk, 3), (.newMsg, 4), (.connClose, 5)].all fun (flag, i) =>
        (p.left.started[i]?).any fun out => p.right.hearings[i]? == some (out.frame, some 1) &&
          out.frame.flag == flag && out.conn == some 0) = true := by
    decide +kernel
  obtain ⟨q, hq, h⟩ := (Option.any_eq_true _ _).1 hplay
  obtain ⟨r, hr, hq⟩ := Option.bind_eq_some_iff.1 hq
  simp only [Bool.and_eq_true, decide_eq_true_eq] at h
  obtain ⟨⟨hcounterparts, hearlier⟩, hframes⟩ := h
  refine ⟨q.settle 80, ((Reachable.refl.rounds hr).moves hq).settle 80, hcounterparts, hearlier,
    fun flag hflag => ?_⟩
  obtain ⟨⟨flag, i⟩, hmem, rfl⟩ : ∃ at?, at? ∈ [(Flag.msgSendOk, 3), (.newMsg, 4), (.connClose, 5)] ∧
      at?.1 = flag :=
    List.mem_map.1 (show flag ∈ [(Flag.msgSendOk, 3), (.newMsg, 4), (.connClose, 5)].map Prod.fst from hflag)
  obtain ⟨out, hout, hframe⟩ := (Option.any_eq_true _ _).1 (List.all_eq_true.1 hframes _ hmem)
  simp only [Bool.and_eq_true, beq_iff_eq] at hframe
  exact ⟨i, out, hframe.1.1, hout, hframe.1.2, hframe.2⟩

end Pair

end StreamMux
