import StreamMux.Proofs.Counterparts

/-! Cross-talk. In a run in which no window is overrun before the peer has accepted its connection, the seats
of both sides fit and what is routed to a connection comes from its counterpart, or meets a connection that
the peer has not accepted yet. What the counterparts and the overruns of two sessions are is read off their
histories. A fiber runs from one wait to the next as one piece, so that what it queues was queued before a close
that comes later. -/

namespace StreamMux

/-! ### Joint runs -/

namespace Joint

variable {settings : Settings} {id : Int32} {v : Side → View}

/-- What both sides keep under the id. -/
structure Kept (id : Int32) (v : Side → View) (side : Side) : Prop where
  placed : (v side).Placed id
  listed : (v side).Listed
  fits : View.Fits id (v side) (v side.other)
  meets : View.Meets id (v side) (v side.other)

theorem kept_start (side : Side) : Kept id (fun _ => .start settings) side where
  placed := {
    agrees := fun _ h => by cases h
    lost := fun _ h => by cases h
    single := fun _ _ _ _ _ _ _ h => by cases h
    waiting := fun _ _ _ _ _ _ h => by cases h }
  listed := ⟨rfl, nofun, nofun, List.nodup_nil, List.nodup_nil⟩
  fits := ⟨none, none, .even, Tidy.start _ _ _ _ rfl rfl rfl rfl rfl rfl⟩
  meets := ⟨fun _ _ _ h => (by cases h), fun _ _ _ h => by cases h⟩

/-- What no window has missed after a step, none had missed before. -/
theorem room_before (h : Joint settings v) {a : Side} {w : View} (hs : View.Step anyOne (v a) w)
    (hroom : ∀ b, ¬ (Function.update v a w b).Overrun id) (b : Side) : ¬ (v b).Overrun id := by
  have hend := hroom b
  rcases Pair.eq_or_eq_other a b with rfl | rfl
  · rw [Function.update_self] at hend
    exact fun hover => hend (hs.overrun (h.sound b) hover)
  · rwa [update_other] at hend

/-- A run keeps this under an id under which no window was overrun before the peer accepted. -/
theorem kept (h : Joint settings v) (hroom : ∀ side, ¬ (v side).Overrun id) (side : Side) :
    Kept id v side := by
  induction h generalizing side with
  | start => exact kept_start side
  | @step v w a h hs hheard ih =>
    have hsound := h.sound a
    have hend := hroom a
    rw [Function.update_self] at hend
    have ih := ih (h.room_before hs hroom)
    have hmine := ih a
    have hback := h.heard a.other
    rw [Pair.other_other] at hback
    have hfits := hs.fits hsound hmine.placed hmine.listed hend (h.sound a.other) (h.heard a) hheard
      hback hmine.fits
    rcases Pair.eq_or_eq_other a side with rfl | rfl
    · refine ⟨?_, ?_, ?_, ?_⟩ <;> rw [Function.update_self]
      · exact hs.placed hsound hmine.placed hend
      · exact hs.listed hsound hmine.listed
      · rwa [update_other]
      · rw [update_other]
        exact hs.meets hsound hmine.placed hmine.listed (h.sound side.other) hheard hmine.fits hmine.meets
    · have hyours := ih a.other
      refine ⟨?_, ?_, ?_, ?_⟩ <;> rw [update_other]
      · exact hyours.placed
      · exact hyours.listed
      · rw [Pair.other_other, Function.update_self]
        exact hfits.symm
      · rw [Pair.other_other, Function.update_self]
        have hmeets := hyours.meets
        rw [Pair.other_other] at hmeets
        exact hmeets.far (hs.started_prefix hsound.coherent hsound.filed hsound.asked) hs.askedFor_prefix

/-- Only what is meant for a connection is routed to one, and that has the id of the frame. -/
theorem routed (h : Joint settings v) {side : Side} {frame : Frame} {n : Nat}
    (hmem : (frame, some n) ∈ (v side).hearings) :
    frame.flag.isRouted = true ∧ ∃ f, (v side).faces[n]? = some f ∧ f.id = frame.id := by
  induction h with
  | start => cases hmem
  | @step v w a h hs _ ih =>
    rcases Pair.eq_or_eq_other a side with rfl | rfl
    · rw [Function.update_self] at hmem ⊢
      have hkept {f : Face} (hf : (v side).faces[n]? = some f) (hid : f.id = frame.id) :
          ∃ g, w.faces[n]? = some g ∧ g.id = frame.id :=
        (hs.exists_kept (h.sound side) hf).imp fun g hg => ⟨hg.1, hg.2.id.trans hid⟩
      cases hs.hearing with
      | silent hearings =>
        rw [hearings] at hmem
        obtain ⟨hrouted, f, hf, hid⟩ := ih hmem
        exact ⟨hrouted, hkept hf hid⟩
      | heard other target hearings dispatched heard route =>
        rw [hearings, List.mem_append, List.mem_singleton] at hmem
        rcases hmem with hmem | hmem
        · obtain ⟨hrouted, f, hf, hid⟩ := ih hmem
          exact ⟨hrouted, hkept hf hid⟩
        · obtain ⟨rfl, rfl⟩ := Prod.mk.inj hmem
          split at route
          · rename_i hrouted
            obtain ⟨f, hf, -⟩ := View.exists_of_addressee route.symm
            exact ⟨hrouted, hkept hf (View.addressee_spec (h.sound side) route.symm hf).2.1⟩
          · cases route
    · rw [update_other] at hmem ⊢
      exact ih hmem

/-- What is routed was sent by the peer for a connection with the id of the frame. -/
theorem sent (h : Joint settings v) {side : Side} {i n : Nat} {frame : Frame}
    (hi : (v side).hearings[i]? = some (frame, some n)) :
    ∃ out m f, (v side.other).started[i]? = some out ∧ out.frame = frame ∧ out.conn = some m ∧
      (v side.other).faces[m]? = some f ∧ f.id = frame.id := by
  have hyours := h.sound side.other
  have hframe : ((v side.other).started.map (·.frame))[i]? = some frame := by
    refine getElem?_grow (h.heard side) ?_
    rw [(h.sound side).dispatched, List.getElem?_map, hi]
    rfl
  rw [List.getElem?_map] at hframe
  obtain ⟨out, hout, rfl⟩ := Option.map_eq_some_iff.1 hframe
  have hrouted := (h.routed (List.mem_of_getElem? hi)).1
  obtain ⟨m, f, hm, hf, hid⟩ := hyours.orderly.exists_face
    (hyours.orderly.mem_queued (List.mem_of_getElem? hout)) (Flag.forConn_of_isRouted hrouted)
  exact ⟨out, m, f, hout, rfl, hm, hf, hid⟩

end Joint

/-! ### Requests of a session -/

namespace Session

/-- The connections that the session asked its peer for, in the order in which its writer took the
requests. -/
def requests (s : Session) : List Nat := requestsOf s.started

/-- The request of the connection `m` became the connection `n` of the other session. -/
def Became (s t : Session) (m n : Nat) : Prop := (m, n) ∈ s.requests.zip t.askedFor

instance (s t : Session) (m n : Nat) : Decidable (s.Became t m n) :=
  inferInstanceAs (Decidable ((m, n) ∈ _))

/-- The two connections belong to one request. -/
def Counterparts (s t : Session) (m n : Nat) : Prop := s.Became t m n ∨ t.Became s n m

instance (s t : Session) (m n : Nat) : Decidable (s.Counterparts t m n) :=
  inferInstanceAs (Decidable (_ ∨ _))

/-- The user asked for the connection, and among the first frames that came in it was not accepted. -/
def Unaccepted (count n : Nat) (s : Session) : Prop :=
  n ∉ s.askedFor ∧ ∀ j < count, ∀ frame, s.hearings[j]? = some (frame, some n) → frame.flag ≠ .newConnOk

/-- A connection under the id that the peer has not accepted has heard a segment that its window did not
take. -/
def Overrun (id : Int32) (s : Session) : Prop :=
  ∃ n c, s.conns[n]? = some c ∧ c.id = id ∧ c.reply.isSettled = false ∧
    s.accepted n ≠ segmentsOf (s.heard n)

theorem overrun_view {id : Int32} {s : Session} : s.view.Overrun id ↔ s.Overrun id := by
  have htaken (n : Nat) : s.view.taken n = s.accepted n :=
    history_filter (fun e he => by cases e <;> first | rfl | cases he) s.trace
  have hheard (n : Nat) : s.view.heard n = s.heard n :=
    history_filter (fun e he => by cases e <;> first | rfl | cases he) s.trace
  simp only [View.Overrun, Overrun, htaken, hheard]
  constructor
  · rintro ⟨n, f, hf, hrest⟩
    obtain ⟨c, hc, rfl⟩ : ∃ c, s.conns[n]? = some c ∧ c.face = f := by simpa [view] using hf
    exact ⟨n, c, hc, hrest⟩
  · rintro ⟨n, c, hc, hrest⟩
    exact ⟨n, c.face, by simp [view, hc], hrest⟩

end Session

namespace Pair

variable {settings : Settings} {id : Int32} {p₀ p : Pair} {side : Side} {n : Nat}

/-- What a session keeps of its requests is what its view does. -/
theorem became_view (s t : Session) (m n : Nat) : View.Became s.view t.view m n ↔ s.Became t m n := by
  have hasked : t.view.askedFor = t.askedFor :=
    history_filter (fun e he => by cases e <;> first | rfl | cases he) t.trace
  rw [View.Became, View.requests, view_started, hasked]
  rfl

end Pair

end StreamMux
