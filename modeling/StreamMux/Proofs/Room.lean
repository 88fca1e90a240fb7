import Mathlib.Algebra.BigOperators.Group.Finset.Piecewise
import Mathlib.Algebra.Order.BigOperators.Group.Finset
import StreamMux.Proofs.Confirming
import StreamMux.Proofs.Conservation

/-! Room for what comes in. A connection that the peer has not accepted can only hear data that was sent
on an earlier one, and of that there is no more than one window. So before the peer has accepted its
connection a window is overrun only under an id for which one side has asked twice. -/

namespace StreamMux

/-! ### Sums -/

/-- The bytes that a frame brings. -/
def Frame.load (f : Frame) : Nat := (f.segment?.map (·.data.length)).getD 0

theorem length_bytesOf_segmentsOf (frames : List Frame) :
    (bytesOf (segmentsOf frames)).length = (frames.map Frame.load).sum := by
  induction frames with
  | nil => rfl
  | cons f frames ih =>
    rw [List.map_cons, List.sum_cons, ← ih]
    cases hs : f.segment? <;> simp [segmentsOf, Frame.load, hs]

/-- Of a list whose items have keys, the part of each key below `N`. -/
theorem sum_parts {α : Type} (xs : List α) (key : α → Option Nat) (weight : α → Nat) (N : Nat) :
    ∑ k ∈ Finset.range N, ((xs.filter fun x => key x = some k).map weight).sum =
      (xs.map fun x => if (key x).any (· < N) then weight x else 0).sum := by
  induction xs with
  | nil => simp
  | cons x xs ih =>
    have hsplit (k : Nat) : (((x :: xs).filter fun x => key x = some k).map weight).sum =
        (if key x = some k then weight x else 0) +
          ((xs.filter fun x => key x = some k).map weight).sum := by
      by_cases hk : key x = some k <;> simp [hk]
    rw [Finset.sum_congr rfl fun k _ => hsplit k, Finset.sum_add_distrib, ih, List.map_cons, List.sum_cons]
    congr 1
    cases hx : key x with
    | none => simp
    | some m => simp [Finset.sum_ite_eq, eq_comm]

theorem sum_le_sum_filter {α : Type} {xs : List α} {p : α → Bool} {f g : α → Nat}
    (h : ∀ x ∈ xs, f x ≤ if p x then g x else 0) : (xs.map f).sum ≤ ((xs.filter p).map g).sum := by
  induction xs with
  | nil => exact Nat.le_refl _
  | cons x xs ih =>
    have ih := ih fun y hy => h y (List.mem_cons_of_mem _ hy)
    have hx := h x List.mem_cons_self
    cases hp : p x
    · rw [List.filter_cons_of_neg (by simp [hp]), List.map_cons, List.sum_cons]
      simp only [hp, Bool.false_eq_true, ↓reduceIte] at hx
      omega
    · rw [List.filter_cons_of_pos hp, List.map_cons, List.map_cons, List.sum_cons, List.sum_cons]
      simp only [hp, ↓reduceIte] at hx
      omega

theorem creditUnder_eq_sum (id : Int32) (frames : List Frame) :
    creditUnder id frames = (frames.map fun f => if f.id = id then f.credit else 0).sum := by
  induction frames with
  | nil => rfl
  | cons f frames ih =>
    rw [← List.singleton_append, creditUnder_append, ih, List.map_append, List.sum_append]
    by_cases hid : f.id = id <;> simp [creditUnder, creditOf, hid]

theorem bytesUnder_eq_sum (id : Int32) (frames : List Frame) :
    (bytesOf (segmentsUnder id frames)).length =
      (frames.map fun f => if f.id = id then f.load else 0).sum := by
  rw [segmentsUnder, length_bytesOf_segmentsOf]
  induction frames with
  | nil => rfl
  | cons f frames ih => by_cases hid : f.id = id <;> simp [hid, ih]

namespace View

variable {v w : View} {n : Nat} {id : Int32} {settings : Settings}

/-- What a connection has reported under the id, and what it has unread, it has heard under the id. -/
theorem Sound.reported (h : v.Sound settings) {f : Face} (hf : v.faces[n]? = some f) :
    creditUnder id (v.said n) + (if f.id = id then f.receive.buffered else 0) ≤
      (bytesOf (segmentsUnder id (v.heard n))).length := by
  obtain ⟨s, hs, rfl⟩ := exists_story hf
  by_cases hid : s.face.id = id
  · have hsound := h.stories n s hs
    have hreported := hsound.reported
    have htaken := length_bytesOf_le hsound.taken_prefix
    have hnamed := h.named n s hs
    rw [eq_of_story hs] at hreported htaken hnamed
    rw [if_pos hid, (under_of_named fun frame hframe => (h.said_named (marks_getElem? hf) frame hframe).trans hid).2,
      (under_of_named fun frame hframe => (hnamed frame hframe).trans hid).1]
    dsimp only at hreported htaken ⊢
    omega
  · have hnone : (v.said n).filter (fun frame => frame.id = id) = [] :=
      List.filter_eq_nil_iff.2 fun frame hframe => by simpa [h.said_named (marks_getElem? hf) frame hframe] using hid
    rw [if_neg hid, creditUnder, hnone]
    exact Nat.zero_le _

/-- All credit that is queued under the id, and what a connection has unread, has come in as data under
the id. -/
theorem Sound.credit_le (h : v.Sound settings) {f : Face} (hf : v.faces[n]? = some f) (hid : f.id = id) :
    creditUnder id (v.queued.map (·.frame)) + f.receive.buffered ≤
      (bytesOf (segmentsUnder id v.dispatched)).length := by
  have hn : n ∈ Finset.range v.faces.length := Finset.mem_range.2 (List.getElem?_eq_some_iff.1 hf).1
  have hsaid (k : Nat) : creditUnder id (v.said k) = ((v.queued.filter fun out => out.conn = some k).map
      fun out => if out.frame.id = id then out.frame.credit else 0).sum := by
    rw [said, creditUnder_eq_sum, List.map_map]
    rfl
  have hheard (k : Nat) : (bytesOf (segmentsUnder id (v.heard k))).length =
      ((v.hearings.filter fun x => x.2 = some k).map fun x => if x.1.id = id then x.1.load else 0).sum := by
    rw [h.heard, bytesUnder_eq_sum, List.map_map]
    rfl
  calc creditUnder id (v.queued.map (·.frame)) + f.receive.buffered
      ≤ ∑ k ∈ Finset.range v.faces.length, creditUnder id (v.said k) + f.receive.buffered := by
        refine Nat.add_le_add_right ?_ _
        rw [Finset.sum_congr rfl fun k _ => hsaid k, sum_parts, creditUnder_eq_sum, List.map_map]
        refine List.sum_le_sum fun out hout => ?_
        rcases h.orderly.named out hout with ⟨hfor, -⟩ | ⟨k, hk, ⟨c, hmark⟩, -⟩
        · have hzero : out.frame.credit = 0 := credit_eq_zero fun hflag => by rw [hflag] at hfor; cases hfor
          simp [hzero]
        · have hlt : k < v.faces.length := by
            rw [← length_marks]
            exact lt_length_of_mark hmark
          simp [hk, hlt]
    _ = ∑ k ∈ Finset.range v.faces.length,
          (creditUnder id (v.said k) + if k = n then f.receive.buffered else 0) := by
        rw [Finset.sum_add_distrib, Finset.sum_ite_eq' _ n fun _ => f.receive.buffered, if_pos hn]
    _ ≤ ∑ k ∈ Finset.range v.faces.length, (bytesOf (segmentsUnder id (v.heard k))).length := by
        refine Finset.sum_le_sum fun k hk => ?_
        have hk := List.getElem?_eq_getElem (Finset.mem_range.1 hk)
        refine Nat.le_trans (Nat.add_le_add_left ?_ _) (h.reported hk)
        split
        · rename_i hkn
          subst hkn
          rw [hf] at hk
          rw [← Option.some.inj hk, if_pos hid]
        · exact Nat.zero_le _
    _ ≤ (bytesOf (segmentsUnder id v.dispatched)).length := by
        rw [Finset.sum_congr rfl fun k _ => hheard k, sum_parts, h.dispatched, bytesUnder_eq_sum, List.map_map]
        refine List.sum_le_sum fun x _ => ?_
        dsimp only [Function.comp_apply]
        split
        · exact Nat.le_refl _
        · exact Nat.zero_le _

/-- What the writer has taken in a lane left it in the order of the queue. -/
theorem Sound.lane_split (h : v.Sound settings) {i : Nat} {out : Outgoing} (hout : v.started[i]? = some out) :
    ∃ rest, onLane out.lane v.queued = onLane out.lane (v.started.take i) ++ out :: rest := by
  obtain ⟨hlt, hget⟩ := List.getElem?_eq_some_iff.1 hout
  obtain ⟨rest, hq, -⟩ := h.orderly.lanes out.lane
  have hone : onLane out.lane [out] = [out] := by simp [onLane]
  have hstarted : v.started = v.started.take i ++ ([out] ++ v.started.drop (i + 1)) := by
    rw [List.singleton_append, ← hget, ← List.drop_eq_getElem_cons hlt, List.take_append_drop]
  refine ⟨onLane out.lane (v.started.drop (i + 1)) ++ rest, ?_⟩
  rw [hq]
  conv_lhs => rw [hstarted, onLane_append, onLane_append, hone]
  simp

/-- Data that one connection has sent is no more than was queued for it. -/
theorem Sound.bytes_le_said (h : v.Sound settings) {outs : List Outgoing} (hpre : outs <+: v.started)
    (hconn : ∀ out ∈ outs, out.frame.id = id → out.frame.flag.isData = true → out.conn = some n) :
    (bytesOf (segmentsUnder id (outs.map (·.frame)))).length ≤ (bytesOf (segmentsOf (v.said n))).length := by
  have hsub : ((onLane .normal outs).filter fun out => out.conn = some n).Sublist
      (v.queued.filter fun out => out.conn = some n) := by
    obtain ⟨rest, hq, -⟩ := h.orderly.lanes .normal
    have hlane : (onLane .normal outs).Sublist (onLane .normal v.queued) := by
      rw [hq]
      exact (hpre.sublist.filter _).trans (List.sublist_append_left ..)
    exact (hlane.trans List.filter_sublist).filter _
  rw [← segmentsUnder_onLane, bytesUnder_eq_sum, length_bytesOf_segmentsOf, said, List.map_map, List.map_map]
  refine Nat.le_trans (sum_le_sum_filter fun out hout => ?_) ((hsub.map _).sum_le_sum fun _ _ => Nat.zero_le _)
  dsimp only [Function.comp_apply]
  by_cases hid : out.frame.id = id
  · cases hdata : out.frame.flag.isData
    · have hnone : out.frame.load = 0 := by rw [Frame.load, segment?_eq_none (.inl hdata)]; rfl
      rw [hnone]
      simp
    · simp [hid, hconn out (List.mem_filter.1 hout).1 hid hdata]
  · simp [hid]

/-- The credit that a connection has heard came in under its id. -/
theorem Sound.credit_heard_le (h : v.Sound settings) {s : Story} (hs : v.story n = some s)
    (hid : s.face.id = id) : creditOf s.heard ≤ creditUnder id v.dispatched := by
  rw [← (under_of_named fun frame hframe => (h.named n s hs frame hframe).trans hid).2, eq_of_story hs]
  dsimp only
  rw [h.heard, h.dispatched, creditUnder_eq_sum, creditUnder_eq_sum]
  exact ((List.filter_sublist.map _).map _).sum_le_sum fun _ _ => Nat.zero_le _

/-- The user has asked at most once for a connection under the id. -/
def AskedOnce (id : Int32) (v : View) : Prop :=
  ∀ (m k : Nat) (f g : Face), v.faces[m]? = some f → v.faces[k]? = some g → f.id = id → g.id = id →
    f.reply ≠ .unasked → g.reply ≠ .unasked → m = k

theorem Step.askedOnce {may : View → Nat → Prop} (hs : Step may v w) (h : v.Sound settings)
    (hw : w.AskedOnce id) : v.AskedOnce id := by
  intro m k f g hf hg hfid hgid hfasked hgasked
  obtain ⟨f', hf', hkept⟩ := hs.exists_kept h hf
  obtain ⟨g', hg', hkept'⟩ := hs.exists_kept h hg
  exact hw m k f' g' hf' hg' (hkept.id.trans hfid) (hkept'.id.trans hgid)
    (fun hun => hfasked (hkept.unasked.1 hun)) fun hun => hgasked (hkept'.unasked.1 hun)

end View

namespace Joint

variable {settings : Settings} {id : Int32} {v : Side → View} {a : Side} {n : Nat} {f : Face}

section Waiting

variable (h : Joint settings v) (hroom : ∀ side, ¬ (v side).Overrun id)
  (honce : (v a).AskedOnce id) (hf : (v a).faces[n]? = some f) (hid : f.id = id)
  (hunsettled : f.reply.isSettled = false) (running : (v a).closed = false)
include h hroom honce hf hid hunsettled running

/-- As long as a connection waits for the answer, nothing of a stream comes in that was sent for a
connection that this side asked for. -/
theorem asked_of_stream {i m : Nat} {out : Outgoing} {g : Face}
    (hout : (v a.other).started[i]? = some out) (hi : i ≤ (v a).dispatched.length) (hoid : out.frame.id = id)
    (hflag : out.frame.flag.isStream = true) (hm : out.conn = some m)
    (hg : (v a.other).faces[m]? = some g) : g.reply ≠ .unasked := by
  intro hun
  have hlane := View.lane_of_isStream hflag
  obtain ⟨rest, hsplit⟩ := (h.sound a.other).lane_split hout
  rw [hlane] at hsplit
  obtain ⟨yes, hyes, hyid, hword⟩ := h.heralded hroom a.other
    (View.onLane .normal ((v a.other).started.take i)).length m out g (by rw [hsplit]; simp) hoid hm hg hun hflag
  rw [hsplit, List.take_left] at hyes
  have hin : yes.frame ∈ (v a).dispatched := by
    have hpre := h.heard a
    rw [List.prefix_iff_eq_take.1 hpre, ← List.map_take]
    exact List.mem_map_of_mem ((List.take_sublist_take_left hi).subset (List.mem_filter.1 hyes).1)
  rcases h.heeds hroom a yes.frame hin hyid hword with hclosed | ⟨k, g', hg', hgid, hasked, hset⟩
  · rw [running] at hclosed
    cases hclosed
  · have hfasked : f.reply ≠ .unasked := fun he => by rw [he] at hunsettled; cases hunsettled
    obtain rfl := honce n k f g' hf hg' hid hgid hfasked hasked
    rw [hf] at hg'
    cases hg'
    rw [hunsettled] at hset
    cases hset

/-- What comes in now, and all that came in on a stream before, was sent for one connection. -/
theorem exists_sender (honce' : (v a.other).AskedOnce id) {out : Outgoing}
    (hout : (v a.other).started[(v a).dispatched.length]? = some out) (hoid : out.frame.id = id)
    (hflag : out.frame.flag.isStream = true) :
    ∃ m g, (v a.other).faces[m]? = some g ∧ g.id = id ∧ ∀ i ≤ (v a).dispatched.length, ∀ o,
      (v a.other).started[i]? = some o → o.frame.id = id → o.frame.flag.isStream = true →
        o.conn = some m := by
  have hnamed {i : Nat} {o : Outgoing} (ho : (v a.other).started[i]? = some o) (hoid : o.frame.id = id)
      (hflag : o.frame.flag.isStream = true) : ∃ m g, o.conn = some m ∧ (v a.other).faces[m]? = some g ∧
        g.id = id := by
    have horderly := (h.sound a.other).orderly
    obtain ⟨m, g, hm, hg, hgid⟩ := horderly.exists_face (horderly.mem_queued (List.mem_of_getElem? ho))
      (Flag.forConn_of_isStream hflag)
    exact ⟨m, g, hm, hg, hgid.trans hoid⟩
  have hasked {i m : Nat} {o : Outgoing} {g : Face} (hi : i ≤ (v a).dispatched.length)
      (ho : (v a.other).started[i]? = some o) (hoid : o.frame.id = id)
      (hflag : o.frame.flag.isStream = true) (hm : o.conn = some m)
      (hg : (v a.other).faces[m]? = some g) : g.reply ≠ .unasked :=
    h.asked_of_stream hroom honce hf hid hunsettled running ho hi hoid hflag hm hg
  obtain ⟨m, g, hm, hg, hgid⟩ := hnamed hout hoid hflag
  refine ⟨m, g, hg, hgid, fun i hi o ho hooid hoflag => ?_⟩
  obtain ⟨k, g', hk, hg', hgid'⟩ := hnamed ho hooid hoflag
  rw [hk, honce' k m g' g hg' hg hgid' hgid (hasked hi ho hooid hoflag hk hg')
    (hasked (Nat.le_refl _) hout hoid hflag hm hg)]

/-- The receive window has room for what comes in. -/
theorem window_has_room (honce' : (v a.other).AskedOnce id) (hopen : f.closed = false) {frame : Frame}
    {data : Bytes} {part : Bool} (hnew : (v a).dispatched ++ [frame] <+: heardAs (v a.other).started)
    (hseg : View.IsSegment frame data part) (hfid : frame.id = id) :
    ∃ receive, f.receive.write f.id data part = .ok receive := by
  have hdata : frame.flag.isData = true := by rw [hseg.1]; cases part <;> rfl
  obtain ⟨out, hout, rfl, -⟩ := View.exists_of_heard (h.sound a.other) hnew
  obtain ⟨m, g, hg, hgid, hconn⟩ := h.exists_sender hroom honce hf hid hunsettled running honce' hout hfid
    (Flag.isStream_of_isData hdata)
  obtain ⟨s, hs, rfl⟩ := View.exists_story hf
  obtain ⟨t, ht, rfl⟩ := View.exists_story hg
  have hsound := (h.sound a).stories n s hs
  refine ⟨_, ReceiveWindow.write_fits ?_ ?_⟩
  · rw [hsound.receive_stopped, hopen, Bool.false_or]
    refine Bool.eq_false_iff.2 fun hclosing => ?_
    -- The word that the sender has closed its connection would have come in before its data.
    obtain ⟨last, hlast, hflag⟩ := hsound.closing hclosing
    have hlid := (h.sound a).named n s hs last hlast
    obtain ⟨o, ho, rfl⟩ : ∃ o ∈ (v a.other).started.take (v a).dispatched.length, o.frame = last := by
      rw [View.eq_of_story hs] at hlast
      dsimp only at hlast
      rw [(h.sound a).heard] at hlast
      have hin : last ∈ (v a).dispatched := by
        rw [(h.sound a).dispatched]
        exact (List.filter_sublist.map _).subset hlast
      rw [List.prefix_iff_eq_take.1 (h.heard a), ← List.map_take] at hin
      exact List.mem_map.1 hin
    have hoconn : o.conn = some m := by
      obtain ⟨i, hi, rfl⟩ := List.mem_take_iff_getElem.1 ho
      exact hconn i (by omega) _ (List.getElem?_eq_getElem (by omega)) (hlid.trans hid) (by rw [hflag]; rfl)
    obtain ⟨rest, hsplit⟩ := (h.sound a.other).lane_split hout
    have horder := (h.sound a.other).closes_last ht
    rw [View.lane_of_isStream (Flag.isStream_of_isData hdata)] at hsplit
    rw [hsplit, List.pairwise_append] at horder
    have := horder.2.2 o (List.mem_filter.2 ⟨ho, by simp [Outgoing.lane, hflag, Flag.isPriority]⟩) out
      List.mem_cons_self hoconn (hconn _ (Nat.le_refl _) out hout hfid (Flag.isStream_of_isData hdata)) hflag
    rw [hseg.1] at this
    cases part <;> cases this
  · obtain ⟨hlt, hget⟩ := List.getElem?_eq_some_iff.1 hout
    have htaken : ((v a.other).started.take ((v a).dispatched.length + 1)).map (·.frame) =
        (v a).dispatched ++ [out.frame] := by
      rw [List.take_add_one, hout, List.map_append, List.map_take, ← List.prefix_iff_eq_take.1 (h.heard a)]
      rfl
    have hbytes : (bytesOf (segmentsUnder id _)).length ≤ (bytesOf (segmentsOf ((v a.other).said m))).length :=
      (h.sound a.other).bytes_le_said
        (List.take_prefix ((v a).dispatched.length + 1) (v a.other).started) fun o ho hoid hodata => by
          obtain ⟨i, hi, rfl⟩ := List.mem_take_iff_getElem.1 ho
          exact hconn i (by omega) _ (List.getElem?_eq_getElem (by omega)) hoid
            (Flag.isStream_of_isData hodata)
    have hone : segmentsUnder id [out.frame] = [⟨data, part⟩] := by
      simp [segmentsUnder, hfid, segmentsOf, segment?_of_isSegment hseg]
    rw [htaken, segmentsUnder_append, hone, bytesOf_append, List.length_append] at hbytes
    have hspent := ((h.sound a.other).stories m t ht).spent
    have hheard := (h.sound a.other).credit_heard_le ht hgid
    have hback := h.credit_dispatched a.other id
    rw [Pair.other_other] at hback
    have hmine := (h.sound a).credit_le hf hid
    rw [View.eq_of_story ht] at hspent hheard
    dsimp only [bytesOf_cons] at hspent hheard hbytes
    rw [hsound.capacity]
    rw [List.length_append] at hbytes
    omega

end Waiting

/-- A step overruns no window, if no side asks twice. -/
theorem not_overrun_step (h : Joint settings v) (hroom : ∀ side, ¬ (v side).Overrun id)
    (honce : ∀ side, (v side).AskedOnce id) {w : View} (hs : View.Step anyOne (v a) w)
    (hheard : w.dispatched <+: heardAs (v a.other).started) : ¬ w.Overrun id := by
  rintro ⟨n, f', hf', hid, hunsettled, hmissed⟩
  obtain ⟨s', hs', rfl⟩ := View.exists_story hf'
  have hsound := h.sound a
  have hmissed : s'.taken ≠ segmentsOf s'.heard := by rwa [View.eq_of_story hs']
  refine hmissed ?_
  rcases (hs.continues hsound.filed hsound.rooted n).comes_from hs' with ⟨s, hs₀, hstep⟩ | ⟨hborn, -⟩
  · have hface := View.face_of_story hs₀
    have hold (hid : s.face.id = id) (hunsettled : s.face.reply.isSettled = false) :
        s.taken = segmentsOf s.heard := by
      refine Decidable.byContradiction fun hne => hroom a ⟨n, s.face, hface, hid, hunsettled, ?_⟩
      rwa [View.eq_of_story hs₀] at hne
    rcases hstep with rfl | hstep
    · exact hold hid hunsettled
    have hid₀ := hstep.kept.id.symm.trans hid
    have hunsettled₀ := hstep.kept.unsettled hunsettled
    refine hstep.taken_heard (hold hid₀ hunsettled₀) fun frame data part hnew hseg hopen => ?_
    rw [View.eq_of_story hs₀, View.eq_of_story hs'] at hnew
    dsimp only at hnew
    cases hs.hearing with
    | silent hearings dispatched heard =>
      rw [heard] at hnew
      exact absurd hnew (by simp)
    | heard other target hearings dispatched heard route =>
      rw [heard] at hnew
      split at hnew
      · rename_i htarget
        obtain rfl : other = frame := by simpa using hnew
        split at route
        · have hto : (v a).addressee other.id = some n := route.symm.trans htarget
          obtain ⟨running, hfid, -⟩ := View.addressee_spec hsound hto hface
          rw [dispatched] at hheard
          exact h.window_has_room hroom (honce a) hface hid₀ hunsettled₀ running (honce a.other) hopen hheard
            hseg (hfid.symm.trans hid₀)
        · rw [route] at htarget
          cases htarget
      · exact absurd hnew (by simp)
  · cases hborn <;> rfl

/-- A window is overrun before the peer has accepted its connection only under an id for which one side has
asked twice. -/
theorem not_overrun (h : Joint settings v) (honce : ∀ side, (v side).AskedOnce id) (side : Side) :
    ¬ (v side).Overrun id := by
  induction h generalizing side with
  | start =>
    rintro ⟨n, f, hf, -⟩
    cases hf
  | @step v w a h hs hheard ih =>
    have hbefore (b : Side) : (v b).AskedOnce id := by
      have hend := honce b
      rcases Pair.eq_or_eq_other a b with rfl | rfl
      · rw [Function.update_self] at hend
        exact hs.askedOnce (h.sound b) hend
      · rwa [update_other] at hend
    have ih := ih hbefore
    rcases Pair.eq_or_eq_other a side with rfl | rfl
    · rw [Function.update_self]
      exact h.not_overrun_step ih hbefore hs hheard
    · rw [update_other]
      exact ih a.other

end Joint

/-! ### Pairs of sessions -/

namespace Session

/-- The user has asked at most once for a connection under the id. -/
def AskedOnce (id : Int32) (s : Session) : Prop :=
  ∀ (m k : Nat) (c d : Conn), s.conns[m]? = some c → s.conns[k]? = some d → c.id = id → d.id = id →
    c.reply ≠ .unasked → d.reply ≠ .unasked → m = k

theorem AskedOnce.view {id : Int32} {s : Session} (h : s.AskedOnce id) : s.view.AskedOnce id := by
  intro m k f g hf hg
  obtain ⟨c, hc, rfl⟩ : ∃ c, s.conns[m]? = some c ∧ c.face = f := by simpa [Session.view] using hf
  obtain ⟨d, hd, rfl⟩ : ∃ d, s.conns[k]? = some d ∧ d.face = g := by simpa [Session.view] using hg
  exact h m k c d hc hd

end Session

namespace Pair

variable {settings : Settings} {id : Int32} {p₀ p : Pair}

/-- In a run in which no user asks twice for a connection under the id, no window is overrun under it
before the peer has accepted the connection. -/
theorem Reachable.not_overrun (h₀ : Initial settings p₀) (hr : Reachable p₀ p)
    (honce : ∀ side, (p.side side).AskedOnce id) (side : Side) : ¬ (p.side side).Overrun id :=
  fun hover => (hr.joint h₀).not_overrun (fun a => (honce a).view) side (Session.overrun_view.2 hover)

end Pair

end StreamMux
