import StreamMux.Proofs.Hearing

/-! What holds of a session at every moment, whatever its user and its peer do: the facts about its
registry, its queues, its windows and its histories in one place, kept by every step. -/

namespace StreamMux

namespace View

variable {v w : View} {may : View → Nat → Prop} {n : Nat}

structure Sound (settings : Settings) (v : View) : Prop where
  configured : v.settings = settings
  coherent : v.Coherent
  filed : v.Filed
  asked : v.Asked
  orderly : v.Orderly
  rooted : v.Rooted
  vouched : v.Vouched
  stories : ∀ n s, v.story n = some s → s.Sound settings
  /-- What a connection hears carries its id. -/
  named : ∀ n s, v.story n = some s → ∀ frame ∈ s.heard, frame.id = s.face.id
  /-- Whoever was given the end of a stream has left nothing of it. -/
  drained : ∀ n want taken, (Request.read n want, CallStage.over (.taken taken)) ∈ v.calls →
    want.isEnd taken = true → ∃ s, v.story n = some s ∧ s.Drained
  dispatched : v.dispatched = v.hearings.map (·.1)
  heard : ∀ n, v.heard n = (v.hearings.filter fun h => h.2 = some n).map (·.1)

theorem Step.settings (hs : Step may v w) : w.settings = v.settings := by
  cases hs <;> simp [setStage, setFace, addFace, note, View.close, shutAll]

/-- Whoever is given data was served. -/
theorem Step.served (hs : Step may v w) {request : Request} {taken : Taken}
    (h : (request, CallStage.over (.taken taken)) ∈ w.calls) :
    (request, CallStage.over (.taken taken)) ∈ v.calls ∨
      ∃ n want f receive, request = .read n want ∧ v.faces[n]? = some f ∧
        f.receive.serve want = (receive, some taken) ∧ w.faces[n]? = some { f with receive } := by
  have hset {x : View} {call : Nat} {stage : CallStage} (hx : x.calls = v.calls)
      (hm : (request, CallStage.over (.taken taken)) ∈ (x.setStage call stage).calls) :
      (request, CallStage.over (.taken taken)) ∈ v.calls ∨
        stage = .over (.taken taken) ∧ ∃ old, v.calls[call]? = some (request, old) := by
    obtain ⟨k, hk⟩ := List.mem_iff_getElem?.1 hm
    simp only [setStage, List.getElem?_modify, hx] at hk
    obtain ⟨d, hd, hk⟩ := Option.map_eq_some_iff.1 hk
    split at hk
    · rename_i hck
      obtain ⟨rfl, hstage⟩ := Prod.mk.inj hk
      exact .inr ⟨hstage, d.2, by rw [hck, hd]⟩
    · exact .inl (hk ▸ List.mem_of_getElem? hd)
  cases hs with
  | ask =>
    rcases List.mem_append.1 h with h | h
    · exact .inl h
    · have := List.mem_singleton.1 h
      cases (Prod.mk.inj this).2
  | goOn call stage plain =>
    rcases hset rfl h with h | ⟨rfl, -⟩
    · exact .inl h
    · cases plain
  | request =>
    rcases hset (by simp [addFace]) h with h | ⟨h, -⟩
    · exact .inl h
    · cases h
  | award | refuse | accept =>
    rcases hset rfl h with h | ⟨h, -⟩
    · exact .inl h
    · cases h
  | send =>
    rcases hset (by simp [setFace]) h with h | ⟨h, -⟩
    · exact .inl h
    · cases h
  | @serve call m want f receive given asked hf hs =>
    rcases hset rfl h with h | ⟨h, old, hold⟩
    · exact .inl h
    · cases h
      rw [asked] at hold
      obtain ⟨rfl, -⟩ := Prod.mk.inj (Option.some.inj hold)
      refine .inr ⟨m, want, f, receive, rfl, hf, hs, ?_⟩
      have hlt := (List.getElem?_eq_some_iff.1 hf).1
      simp [setStage, note, setFace, hlt]
  | report | leave | ping | echo | overflow | turnAway | publish =>
    exact .inl (by simpa [setFace, note] using h)
  | look | waste | start | stage | stageLate | discard | enter | hollow | answer | grant | farewell
  | register | retire | close => exact .inl h

theorem Step.story_drained (hs : Step may v w) (hfiled : v.Filed) (hroot : v.Rooted)
    (h : ∃ s, v.story n = some s ∧ s.Drained) : ∃ s, w.story n = some s ∧ s.Drained := by
  obtain ⟨s, hs₀, hd⟩ := h
  obtain ⟨s', hs', hstep⟩ := (hs.continues hfiled hroot n).goes_on hs₀
  refine ⟨s', hs', ?_⟩
  rcases hstep with rfl | hstep
  · exact hd
  · exact hstep.drained hd

theorem Step.sound {settings : Settings} (hs : Step may v w) (h : v.Sound settings) :
    w.Sound settings where
  configured := hs.settings.trans h.configured
  coherent := hs.coherent h.coherent
  filed := hs.filed h.filed
  asked := hs.asked h.asked
  orderly := hs.orderly h.coherent h.filed h.asked h.orderly
  rooted := hs.rooted h.rooted
  vouched := hs.vouched h.coherent h.filed h.asked h.rooted h.vouched
  stories n s' hs' := by
    rcases (hs.continues h.filed h.rooted n).comes_from hs' with ⟨s, hs₀, rfl | hstep⟩ | ⟨hborn, -⟩
    · exact h.stories n _ hs₀
    · rw [h.configured] at hstep
      exact hstep.sound (h.stories n s hs₀)
    · rw [← h.configured]
      exact hborn.sound
  named n s' hs' := by
    rcases (hs.continues h.filed h.rooted n).comes_from hs' with ⟨s, hs₀, rfl | hstep⟩ | ⟨hborn, -⟩
    · exact h.named n _ hs₀
    · obtain ⟨hid, -, hheard | ⟨-, frame, hframe, hheard⟩⟩ := hstep.keeps
      · rw [hid, hheard]
        exact h.named n s hs₀
      · rw [hid, hheard]
        intro f hf
        rcases List.mem_append.1 hf with hf | hf
        · exact h.named n s hs₀ f hf
        · rw [List.mem_singleton.1 hf, hframe]
    · intro f hf
      cases hborn <;> cases hf
  drained n want taken hmem hend := by
    rcases hs.served hmem with hmem | ⟨m, want', f, receive, hreq, hf, hserve, hf'⟩
    · exact hs.story_drained h.filed h.rooted (h.drained n want taken hmem hend)
    · cases hreq
      obtain ⟨⟨count, hreceive, -⟩, -, hlast⟩ := ReceiveWindow.serve_spec hserve
      obtain ⟨hstop, hempty⟩ := hlast taken rfl hend
      obtain ⟨s, hs₁, hface⟩ := exists_story hf'
      refine ⟨s, hs₁, ?_⟩
      rw [Story.Drained, hface]
      exact ⟨by rw [hreceive]; exact hstop, hempty⟩
  dispatched := by
    cases hs.hearing with
    | silent hearings dispatched heard => rw [dispatched, hearings, h.dispatched]
    | heard frame target hearings dispatched heard route =>
      rw [dispatched, hearings, h.dispatched]
      simp
  heard n := by
    cases hs.hearing with
    | silent hearings dispatched heard => rw [heard, hearings, h.heard]
    | heard frame target hearings dispatched heard route =>
      rw [heard, hearings, h.heard]
      by_cases hn : target = some n <;> simp [hn]

theorem Steps.sound {settings : Settings} (hs : Steps may v w) (h : v.Sound settings) :
    w.Sound settings := by
  induction hs with
  | refl => exact h
  | tail _ hs ih => exact hs.sound ih

end View

end StreamMux
