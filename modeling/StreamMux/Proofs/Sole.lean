import StreamMux.Proofs.Joint

/-! An id that names one connection at each end. Whatever is sent under it is sent for the one, and
whatever is exchanged reaches the other as long as that is open: before the one has anything to
exchange, the other has spoken under the id, and so is registered. -/

namespace StreamMux

/-- The frames under an id that are part of an exchange. -/
def exchanged (id : Int32) (frames : List Frame) : List Frame :=
  frames.filter fun f => f.id = id ∧ f.flag.isExchange = true

theorem exchanged_append (id : Int32) (frames more : List Frame) :
    exchanged id (frames ++ more) = exchanged id frames ++ exchanged id more := List.filter_append ..

namespace View

variable {v w : View} {may : View → Nat → Prop} {n : Nat} {id : Int32} {settings : Settings}

/-- No connection but this one has the id. -/
def Sole (n : Nat) (id : Int32) (v : View) : Prop := ∀ k c, v.marks[k]? = some (id, c) → k = n

theorem exists_story_of_mark {c : Bool} (h : v.marks[n]? = some (id, c)) :
    ∃ s, v.story n = some s ∧ s.face.id = id ∧ s.face.closed = c := by
  simp only [View.marks, List.getElem?_map, Option.map_eq_some_iff] at h
  obtain ⟨f, hf, he⟩ := h
  cases he
  obtain ⟨s, hs, rfl⟩ := exists_story hf
  exact ⟨s, hs, rfl, rfl⟩

/-- A connection keeps its id, and stays closed once it is. -/
theorem Step.marks (hs : Step may v w) (h : v.Sound settings) {k : Nat} {c : Bool}
    (hk : v.marks[k]? = some (id, c)) : ∃ c', w.marks[k]? = some (id, c') ∧ (c = true → c' = true) := by
  obtain ⟨s, hs₀, rfl, rfl⟩ := exists_story_of_mark hk
  obtain ⟨s', hs', hstep⟩ := (hs.continues h.filed h.rooted k).goes_on hs₀
  have hmark := marks_getElem? (face_of_story hs')
  rcases hstep with rfl | hstep
  · exact ⟨_, hmark, fun h => h⟩
  · rw [hstep.keeps.1] at hmark
    exact ⟨_, hmark, hstep.keeps.2.1⟩

theorem Step.sole (hs : Step may v w) (h : v.Sound settings) (hsole : w.Sole n id) : v.Sole n id := by
  intro k c hk
  obtain ⟨c', hk', -⟩ := hs.marks h hk
  exact hsole k c' hk'

theorem Step.agreesOn_sole (hs : Step may v w) (h : v.Sound settings) (hsole : v.Sole n id)
    (ha : v.AgreesOn id) : w.AgreesOn id := by
  refine (hs.filing fun _ _ hl => ⟨false, h.filed.mark_of_lookup hl⟩).agreesOn h.filed
    (fun k _ hk => ?_) ha
  rcases hl : v.registry.lookup id with _ | other
  · rfl
  · have hother := h.filed.mark_of_lookup hl
    rw [hsole k true hk] at hk
    rw [hsole other false hother, hk] at hother
    cases hother

end View

namespace Joint

variable {settings : Settings} {v : Side → View} {side : Side} {m n : Nat} {id : Int32}

theorem agreesOn (h : Joint settings v) (hsole : (v side).Sole n id) : (v side).AgreesOn id :=
  h.invariant (P := fun u => u.Sole n id → u.AgreesOn id) (fun _ k hk => by cases hk)
    (fun _ _ hu hs ih hw => hs.agreesOn_sole hu (hs.sole hu hw) (ih (hs.sole hu hw))) side hsole

/-- What is exchanged under the id is queued for the one connection. -/
theorem said_exchanged (h : Joint settings v) (hsole : (v side).Sole m id) :
    exchanged id ((v side).queued.map (·.frame)) = exchanged id ((v side).said m) := by
  have hq := (h.sound side).orderly.named
  unfold exchanged View.said
  rw [List.filter_map, List.filter_map, List.filter_filter]
  congr 1
  refine List.filter_congr fun out hout => ?_
  rw [Bool.eq_iff_iff]
  simp only [Function.comp_apply, Bool.and_eq_true, decide_eq_true_eq]
  refine ⟨fun ⟨hid, hx⟩ => ⟨⟨hid, hx⟩, ?_⟩, fun h => h.1⟩
  rcases hq out hout with ⟨hc, -⟩ | ⟨k, hk, ⟨c, hmark⟩, -⟩
  · rw [Flag.forConn_of_isExchange hx] at hc
    cases hc
  · rw [hk, hsole k c (hid ▸ hmark)]

/-- Before anything is exchanged under the id, the other end has spoken under it, and so is no longer
staged. -/
theorem unstaged_of_exchange (h : Joint settings v) (a : Side) (hsole : (v a.other).Sole n id)
    {out : Outgoing} (hout : out ∈ (v a).queued) (hid : out.frame.id = id)
    (hx : out.frame.flag.isExchange = true) :
    ∃ c, (v a.other).marks[n]? = some (id, c) ∧ n ∉ (v a.other).staged.toList := by
  obtain ⟨g, hg, hgid, hgc⟩ := (h.sound a).vouched.said out hout hx
  obtain ⟨other, hother, rfl⟩ := List.mem_map.1 ((h.heard a).subset hg)
  have horderly := (h.sound a.other).orderly
  rcases horderly.named other (horderly.mem_queued hother) with ⟨hc, -⟩ | ⟨k, -, ⟨c, hmark⟩, hk⟩
  · rw [hgc] at hc
    cases hc
  · rw [hgid, hid] at hmark
    obtain rfl := hsole k c hmark
    exact ⟨c, hmark, hk⟩

/-- The connection has heard a beginning of what was exchanged under its id and came in, and while it is
open all of it. -/
def Follows (n : Nat) (id : Int32) (u : View) : Prop :=
  exchanged id (u.heard n) <+: exchanged id u.dispatched ∧
    (u.marks[n]? = some (id, true) ∨ exchanged id (u.heard n) = exchanged id u.dispatched)

theorem Follows.step {u w : View} (hu : u.Sound settings) (hs : View.Step anyOne u w)
    (hagrees : u.AgreesOn id)
    (hthere : ∀ frame, w.dispatched = u.dispatched ++ [frame] → frame.id = id →
      frame.flag.isExchange = true → ∃ c, u.marks[n]? = some (id, c) ∧ n ∉ u.staged.toList)
    (h : Follows n id u) : Follows n id w := by
  obtain ⟨hpre, hall⟩ := h
  have hclosed (hc : u.marks[n]? = some (id, true)) : w.marks[n]? = some (id, true) := by
    obtain ⟨c', hc', hstay⟩ := hs.marks hu hc
    rwa [hstay rfl] at hc'
  cases hs.hearing with
  | silent hearings dispatched heard =>
    rw [Follows, heard, dispatched]
    exact ⟨hpre, hall.imp_left hclosed⟩
  | heard frame target hearings dispatched heard route =>
    rw [Follows, heard, dispatched, exchanged_append, exchanged_append]
    by_cases hx : frame.id = id ∧ frame.flag.isExchange = true
    · obtain ⟨c, hmark, hn⟩ := hthere frame dispatched hx.1 hx.2
      rw [if_pos (Flag.isRouted_of_isExchange hx.2), hx.1] at route
      cases c
      · rw [hu.filed.addressee_of_lookup hu.coherent (hagrees n hmark hn)] at route
        rw [if_pos route]
        have heq : exchanged id (u.heard n) = exchanged id u.dispatched :=
          hall.resolve_left (by rw [hmark]; simp)
        rw [heq]
        exact ⟨List.prefix_rfl, .inr rfl⟩
      · have hto : target ≠ some n := by
          rintro rfl
          obtain ⟨f, hf, hopen, -⟩ := View.exists_of_addressee route.symm
          rw [View.marks_getElem? hf, hopen] at hmark
          simp at hmark
        rw [if_neg hto]
        refine ⟨?_, .inl (hclosed hmark)⟩
        simpa [exchanged] using hpre.trans (List.prefix_append ..)
    · have hnone (l : List Frame) (hl : l = [frame] ∨ l = []) : exchanged id l = [] := by
        rcases hl with rfl | rfl
        · simp only [exchanged, List.filter_cons, hx, decide_false, Bool.false_eq_true, ↓reduceIte,
            List.filter_nil]
        · rfl
      rw [hnone [frame] (.inl rfl), hnone (if target = some n then [frame] else []) (by
        split
        · exact .inl rfl
        · exact .inr rfl)]
      simp only [List.append_nil]
      exact ⟨hpre, hall.imp_left hclosed⟩

theorem follows (h : Joint settings v) (hm : (v side).Sole m id) (hn : (v side.other).Sole n id) :
    Follows n id (v side.other) := by
  induction h with
  | start => exact ⟨List.prefix_rfl, .inr rfl⟩
  | @step v w a h hs hheard ih =>
    rcases Pair.eq_or_eq_other a side with rfl | rfl
    · rw [Function.update_self] at hm
      rw [update_other] at hn ⊢
      exact ih (hs.sole (h.sound _) hm) hn
    · rw [update_other] at hm
      rw [Pair.other_other, Function.update_self] at hn ⊢
      rw [Pair.other_other] at ih
      have hn' := hs.sole (h.sound a) hn
      refine Follows.step (h.sound a) hs (h.agreesOn hn') (fun frame hd hid hx => ?_) (ih hm hn')
      obtain ⟨out, hout, hframe⟩ : ∃ out ∈ (v a.other).started, out.frame.normal = frame := by
        rw [hd] at hheard
        have hmem := hheard.subset (List.mem_append_right _ List.mem_cons_self)
        exact List.mem_map.1 hmem
      have horderly := (h.sound a.other).orderly
      have hq := horderly.mem_queued hout
      rw [horderly.normal out hq] at hframe
      subst hframe
      have := h.unstaged_of_exchange a.other (n := n) (by rwa [Pair.other_other]) hq hid hx
      rwa [Pair.other_other] at this

end Joint

end StreamMux
