import StreamMux.Proofs.Moves

/-! The registry and the connections. Every entry is an open connection under its own id, whatever the
peer sends. Every open connection that is no longer staged is the entry under its id, as long as no
refused open gives up an id that is no longer its own: its placeholder may have been closed, and its id
used again, before it looks at the answer. -/

namespace StreamMux

namespace View

/-! ### What the registry depends on -/

/-- The ids of the connections, and which of them are closed on this side. -/
def marks (v : View) : List (Int32 × Bool) := v.faces.map fun f => (f.id, f.closed)

/-- A connection that is on its way to the user, or has been given to it. -/
def Handed (n : Nat) (v : View) : Prop :=
  v.Owns n ∨ n ∈ v.published ∨ v.acceptor = .publishing n ∨
    ∃ c ∈ v.calls, ∃ due, c.2 = .answering n due

variable {v w : View}

@[simp] theorem length_marks (v : View) : v.marks.length = v.faces.length := by simp [marks]

theorem marks_getElem? {n : Nat} {f : Face} (h : v.faces[n]? = some f) :
    v.marks[n]? = some (f.id, f.closed) := by
  simp [marks, h]

@[simp] theorem marks_setFace (n : Nat) (f : Face) (v : View) :
    (v.setFace n f).marks = v.marks.set n (f.id, f.closed) := by
  simp [marks, setFace, List.map_set]

theorem marks_setFace_self {n : Nat} {f : Face} (h : v.faces[n]? = some f) (g : Face) :
    (v.setFace n g).marks[n]? = some (g.id, g.closed) := by
  have hlt := (List.getElem?_eq_some_iff.1 h).1
  simp [hlt]

/-- A change that keeps the id of a connection and does not close it. -/
theorem marks_setFace_same {n : Nat} {f g : Face} (h : v.faces[n]? = some f) (hid : g.id = f.id)
    (hclosed : g.closed = f.closed) : (v.setFace n g).marks = v.marks := by
  have hn := marks_getElem? h
  obtain ⟨hlt, heq⟩ := List.getElem?_eq_some_iff.1 hn
  rw [marks_setFace, hid, hclosed, ← heq, List.set_getElem_self]

@[simp] theorem marks_note (e : Event) (v : View) : (v.note e).marks = v.marks := rfl

@[simp] theorem marks_setStage (call : Nat) (stage : CallStage) (v : View) :
    (v.setStage call stage).marks = v.marks := rfl

@[simp] theorem marks_post (out : Outgoing) (v : View) : (v.post out).marks = v.marks := by
  simp [marks]

theorem Handed.of_eq {n : Nat} (h : w.Handed n) (hc : w.calls = v.calls)
    (hp : w.published = v.published) (ha : w.acceptor = v.acceptor) : v.Handed n := by
  simpa only [Handed, Owns, hc, hp, ha] using h

theorem Handed.of_setStage {n call : Nat} {stage : CallStage} (h : (v.setStage call stage).Handed n) :
    v.Handed n ∨ stage = .over (.conn n) ∨ ∃ due, stage = .answering n due := by
  have hcalls {c : Request × CallStage} (hc : c ∈ (v.setStage call stage).calls) :
      c ∈ v.calls ∨ c.2 = stage := by
    obtain ⟨k, hk⟩ := List.mem_iff_getElem?.1 hc
    simp only [setStage, List.getElem?_modify] at hk
    obtain ⟨d, hd, hk⟩ := Option.map_eq_some_iff.1 hk
    split at hk
    · right; rw [← hk]
    · left; rw [← hk]; exact List.mem_of_getElem? hd
  rcases h with ⟨c, hc, hs⟩ | hp | ha | ⟨c, hc, due, hs⟩
  · rcases hcalls hc with hc | hc
    · exact .inl (.inl ⟨c, hc, hs⟩)
    · exact .inr (.inl (hc ▸ hs))
  · exact .inl (.inr (.inl hp))
  · exact .inl (.inr (.inr (.inl ha)))
  · rcases hcalls hc with hc | hc
    · exact .inl (.inr (.inr (.inr ⟨c, hc, due, hs⟩)))
    · exact .inr (.inr ⟨due, hc ▸ hs⟩)

theorem Handed.of_plain {n call : Nat} {stage : CallStage} (h : (v.setStage call stage).Handed n)
    (plain : stage.isPlain = true) : v.Handed n := by
  rcases h.of_setStage with h | rfl | ⟨due, rfl⟩
  · exact h
  · cases plain
  · cases plain

/-- What a step does to the registry, the staged connections and the marks. -/
inductive Filing (may : View → Nat → Prop) (v w : View) : Prop
  | same (marks : w.marks = v.marks) (entries : w.registry.entries = v.registry.entries)
      (staged : w.staged.toList = v.staged.toList) (handed : ∀ n, w.Handed n → v.Handed n)
  /-- A connection is made and registered. -/
  | opened (id : Int32) (free : v.registry.lookup id = none)
      (marks : w.marks = v.marks ++ [(id, false)])
      (entries : w.registry.entries = v.registry.entries ++ [(id, v.marks.length)])
      (staged : w.staged.toList = v.staged.toList)
      (handed : ∀ n, w.Handed n → v.Handed n ∨ n = v.marks.length)
  /-- A connection is made and staged, or closed at once. -/
  | asked (id : Int32) (closed : Bool) (marks : w.marks = v.marks ++ [(id, closed)])
      (entries : w.registry.entries = v.registry.entries)
      (staged : w.staged.toList =
        if closed then v.staged.toList else v.staged.toList ++ [v.marks.length])
      (handed : ∀ n, w.Handed n → v.Handed n)
  /-- The first of the staged connections is registered. -/
  | registered (n : Nat) (id : Int32) (closed : Bool) (mark : v.marks[n]? = some (id, closed))
      (free : v.registry.lookup id = none) (marks : w.marks = v.marks)
      (entries : w.registry.entries = v.registry.entries ++ [(id, n)])
      (staged : v.staged.toList = n :: w.staged.toList)
      (handed : ∀ m, w.Handed m → v.Handed m ∨ m = n)
  /-- The first of the staged connections is closed. -/
  | turnedAway (n : Nat) (id : Int32) (marks : w.marks = v.marks.set n (id, true))
      (entries : w.registry.entries = v.registry.entries)
      (staged : v.staged.toList = n :: w.staged.toList) (handed : ∀ m, w.Handed m → v.Handed m)
  /-- A connection is closed, and what is under its id is removed. -/
  | dropped (n : Nat) (id : Int32) (closed : Bool) (mark : v.marks[n]? = some (id, closed))
      (held : v.Handed n ∨ v.registry.lookup id = some n) (safe : closed = false ∨ may v n)
      (marks : w.marks = v.marks.set n (id, true))
      (entries : w.registry.entries = (v.registry.delete id).1.entries)
      (staged : w.staged.toList = v.staged.toList) (handed : ∀ m, w.Handed m → v.Handed m)
  /-- The session ends. -/
  | ended (ids : ∀ (n : Nat) (id : Int32) (closed : Bool), v.marks[n]? = some (id, closed) →
        ∃ c, w.marks[n]? = some (id, c))
      (marks : ∀ n id, w.marks[n]? = some (id, false) → v.marks[n]? = some (id, false) ∧
        n ∉ v.staged.toList ∧ ∀ i, (i, n) ∉ v.registry.entries)
      (entries : w.registry.entries = []) (staged : w.staged.toList = [])
      (handed : ∀ m, w.Handed m → v.Handed m)

variable {may : View → Nat → Prop}

/-- A step that changes no mark, leaves the registry and the staged connections alone, and hands over
nothing new. -/
theorem Filing.quiet (marks : w.marks = v.marks) (registry : w.registry = v.registry)
    (staged : w.staged = v.staged) (handed : ∀ n, w.Handed n → v.Handed n) : Filing may v w :=
  .same marks (by rw [registry]) (by rw [staged]) handed

theorem exists_of_addressee {id : Int32} {n : Nat} (h : v.addressee id = some n) :
    ∃ f, v.faces[n]? = some f ∧ f.closed = false ∧ v.registry.lookup id = some n := by
  unfold addressee at h
  split at h
  · cases h
  · rename_i m hm
    split at h
    · cases h
    · rename_i f hf
      split at h
      · cases h
      · rename_i hopen
        cases h
        refine ⟨f, hf, by simpa using hopen, ?_⟩
        unfold Registry.get? at hm
        split at hm
        · cases hm
        · exact hm

/-- A connection that is handed over or registered is closed, after events that change nothing. -/
theorem filing_closeConn {n : Nat} {x : View} (hm : x.marks = v.marks) (hr : x.registry = v.registry)
    (hs : x.staged = v.staged) (hh : ∀ m, x.Handed m → v.Handed m)
    (hheld : ∀ f, x.faces[n]? = some f → v.Handed n ∨ v.registry.lookup f.id = some n) :
    Filing may v (x.closeConn n) := by
  have hhanded (m : Nat) (hm : (x.closeConn n).Handed m) : v.Handed m :=
    hh m (hm.of_eq (by simp) (by simp) (by simp))
  rcases hf : x.faces[n]? with _ | f
  · have : x.closeConn n = x := by simp only [closeConn, hf]
    exact .quiet (by rw [this, hm]) (by rw [this, hr]) (by rw [this, hs]) hhanded
  · cases hopen : f.closed
    · have hc := closeConn_of_open hf hopen
      have hmark := marks_getElem? hf
      rw [hm, hopen] at hmark
      refine .dropped n f.id false hmark (hheld f hf) (.inl rfl) ?_ ?_ (by simp [hs]) hhanded
      · rw [hc, ← hm]
        simp [marks, List.map_set, Face.close, Face.stop]
      · rw [hc, ← hr]
    · have hc := closeConn_of_closed hf hopen
      exact .quiet (by rw [hc, hm]) (by rw [hc, hr]) (by rw [hc, hs]) hhanded

theorem filing_close (x : View) : Filing may x x.close := by
  have hm (n : Nat) : x.close.marks[n]? = (x.shutAll (x.registry.entries.map (·.2) ++
      x.staged.toList)).faces[n]?.map fun f => (f.id, f.closed) := by
    simp [marks, close]
  refine .ended (fun n id closed hn => ?_) (fun n id hn => ?_) rfl rfl
    fun m hm => hm.of_eq rfl rfl rfl
  · simp only [marks, List.getElem?_map, Option.map_eq_some_iff] at hn
    obtain ⟨f, hf, he⟩ := hn
    obtain ⟨rfl, -⟩ := Prod.mk.inj he
    rw [hm, shutAll_getElem?, hf]
    simp only [Option.map_some]
    split
    · exact ⟨true, rfl⟩
    · exact ⟨f.closed, rfl⟩
  · rw [hm, shutAll_getElem?] at hn
    rcases hf : x.faces[n]? with _ | f
    · simp [hf] at hn
    · simp only [hf, Option.map_some, Option.some.injEq] at hn
      split at hn
      · cases hn
      · rename_i hmem
        rw [List.mem_append, not_or] at hmem
        refine ⟨by rw [marks_getElem? hf, hn], hmem.2, fun i hi => hmem.1 ?_⟩
        exact List.mem_map.2 ⟨(i, n), hi, rfl⟩

/-- A call that has begun, and one that goes on without a connection, hand nothing over. -/
theorem Handed.of_ask {n : Nat} {request : Request}
    (h : Handed n { v with calls := v.calls ++ [(request, .fresh)] }) : v.Handed n := by
  have hold {c : Request × CallStage} (hc : c ∈ v.calls ++ [(request, .fresh)]) (hfresh : c.2 ≠ .fresh) :
      c ∈ v.calls := by
    rcases List.mem_append.1 hc with hc | hc
    · exact hc
    · rw [List.mem_singleton.1 hc] at hfresh
      exact absurd rfl hfresh
  rcases h with ⟨c, hc, hs⟩ | hp | ha | ⟨c, hc, due, hs⟩
  · exact .inl ⟨c, hold hc (by simp [hs]), hs⟩
  · exact .inr (.inl hp)
  · exact .inr (.inr (.inl ha))
  · exact .inr (.inr (.inr ⟨c, hold hc (by simp [hs]), due, hs⟩))

/-- An open makes a connection, registers it and waits with it. -/
theorem filing_request {call : Nat} {id : Int32} (due : Moment) (free : v.registry.lookup id = none) :
    Filing may v ((({ v.addFace (.make v.settings id (.awaited call)) with
      registry := { v.registry with entries := v.registry.entries ++ [(id, v.faces.length)] } }).post
        { frame := .control .newConn id, conn := some v.faces.length }).setStage call
          (.answering v.faces.length due)) := by
  refine .opened _ free (by simp [marks, setStage, addFace, Face.make])
    (by simp [setStage]) (by simp [setStage, addFace]) fun n h => ?_
  rcases h.of_setStage with h | h | ⟨_, h⟩
  · exact .inl (h.of_eq (by simp [addFace]) (by simp [addFace]) (by simp [addFace]))
  · cases h
  · cases h; right; simp

/-- An open that is answered, and an accept, give out what was handed over. -/
theorem filing_award {call n : Nat} {request : Request} {due : Moment}
    (asked : v.calls[call]? = some (request, .answering n due)) :
    Filing may v (v.setStage call (.over (.conn n))) := by
  refine .quiet rfl rfl rfl fun m h => ?_
  rcases h.of_setStage with h | h | ⟨_, h⟩
  · exact h
  · cases h
    exact .inr (.inr (.inr ⟨_, List.mem_of_getElem? asked, due, rfl⟩))
  · cases h

theorem filing_accept {call n : Nat} {rest : List Nat} (hp : v.published = n :: rest) :
    Filing may v (({ v with published := rest }).setStage call (.over (.conn n))) := by
  refine .quiet rfl rfl rfl fun m h => ?_
  rcases h.of_setStage with h | h | ⟨_, h⟩
  · rcases h with h | h | h
    · exact .inl h
    · exact .inr (.inl (by rw [hp]; exact List.mem_cons_of_mem _ h))
    · exact .inr (.inr h)
  · cases h
    exact .inr (.inl (by rw [hp]; exact List.mem_cons_self))
  · cases h

/-- A segment that is refused closes the connection that stands under its id. -/
theorem filing_overflow {frame : Frame} {n : Nat} (hto : v.addressee frame.id = some n)
    (hown : ∀ id n, v.registry.lookup id = some n → ∃ closed, v.marks[n]? = some (id, closed)) :
    Filing may v (((v.note (.dispatched frame)).note (.routed n frame)).closeConn n) := by
  obtain ⟨g, hg, -, hlook⟩ := exists_of_addressee hto
  obtain ⟨closed, hmark⟩ := hown _ _ hlook
  refine filing_closeConn rfl rfl rfl (fun _ h => h) fun f' hf' => .inr ?_
  have hf' : v.faces[_]? = some f' := hf'
  rw [marks_getElem? hf'] at hmark
  simp only [Option.some.injEq, Prod.mk.injEq] at hmark
  rw [hmark.1]
  exact hlook

/-- The acceptor registers the first of the staged connections, and publishes it then. -/
theorem filing_register {lanes : Lanes Nat} {registry : Registry Nat} {n : Nat} {f : Face}
    (ht : v.staged.take = (lanes, some n)) (hf : v.faces[n]? = some f)
    (hr : v.registry.insertNew f.id n = some registry) :
    Filing may v { v with staged := lanes, registry, acceptor := .publishing n } := by
  unfold Registry.insertNew at hr
  split at hr
  · cases hr
  · rename_i hfree
    cases hr
    refine .registered n f.id f.closed (marks_getElem? hf) (by simp_all) rfl rfl
      (Lanes.toList_of_take ht) fun m h => ?_
    rcases h with h | h | h | h
    · exact .inl (.inl h)
    · exact .inl (.inr (.inl h))
    · cases h; exact .inr rfl
    · exact .inl (.inr (.inr (.inr h)))

/-- A connection that is published was handed over to the acceptor before. -/
theorem filing_publish {n : Nat} {f : Face} (hp : v.acceptor = .publishing n) :
    Filing may v (({ v with
      published := v.published ++ [n]
      acceptor := if v.closed then .over else .idle }).post
        { frame := .control .newConnOk f.id, conn := some n }) := by
  refine .quiet (by simp [marks]) (by simp) (by simp) fun m h => ?_
  rcases h with h | h | h | h
  · exact .inl (by simpa [Owns] using h)
  · rw [post_published, List.mem_append, List.mem_singleton] at h
    rcases h with h | rfl
    · exact .inr (.inl h)
    · exact .inr (.inr (.inl hp))
  · rw [post_acceptor] at h
    dsimp only at h
    split at h <;> cases h
  · exact .inr (.inr (.inr (by simpa using h)))

theorem Step.filing (hs : Step may v w)
    (hown : ∀ id n, v.registry.lookup id = some n → ∃ closed, v.marks[n]? = some (id, closed)) :
    Filing may v w := by
  cases hs with
  | ask request => exact .quiet rfl rfl rfl fun n h => h.of_ask
  | goOn call stage plain => exact .quiet rfl rfl rfl fun n h => h.of_plain plain
  | request due asked running pos free => exact filing_request due free
  | award asked hf given => exact filing_award asked
  | @refuse call n request due f asked hf given allowed =>
    have hheld : v.Handed n := .inr (.inr (.inr ⟨_, List.mem_of_getElem? asked, due, rfl⟩))
    exact .dropped n f.id f.closed (marks_getElem? hf) (.inl hheld) (.inr allowed)
      (marks_setFace ..) rfl rfl fun m h => h.of_plain rfl
  | accept asked hp => exact filing_accept hp
  | serve asked hf =>
    refine .quiet (marks_setFace_same hf rfl rfl) rfl rfl fun m h => ?_
    rcases h.of_setStage with h | h | ⟨_, h⟩
    · exact h
    · cases h
    · cases h
  | look hf | waste hf => exact .quiet (marks_setFace_same hf rfl rfl) rfl rfl fun m h => h
  | report asked hf =>
    refine .quiet ?_ (by simp [setFace]) (by simp [setFace]) fun m h =>
      h.of_eq (by simp [setFace]) (by simp [setFace]) (by simp [setFace])
    exact (marks_post ..).trans (marks_setFace_same hf rfl rfl)
  | send asked hstage hf =>
    refine .quiet ?_ (by simp [setStage, setFace]) (by simp [setStage, setFace]) fun m h =>
      (h.of_plain rfl).of_eq (by simp [setFace]) (by simp [setFace]) (by simp [setFace])
    exact (marks_post ..).trans (marks_setFace_same hf rfl rfl)
  | leave n held => exact filing_closeConn rfl rfl rfl (fun _ h => h) fun f _ => .inl (.inl held)
  | start | discard | hollow => exact .quiet rfl rfl rfl fun m h => h
  | ping | echo =>
    refine .quiet ?_ (by simp [note]) (by simp [note]) fun m h =>
      h.of_eq (by simp [note]) (by simp [note]) (by simp [note])
    simp
  | @stage frame hflag running =>
    refine .asked frame.id false (by simp [marks, note, addFace, Face.make]) rfl ?_ fun m h => h
    simp [note, addFace, Lanes.toList]
  | @stageLate frame hflag ended =>
    exact .asked frame.id true (by simp [marks, note, addFace, Face.make, Face.shut, Face.close,
      Face.stop]) rfl rfl fun m h => h
  | enter hseg hto hf | answer hflag hto hf | grant hflag hto hf | farewell hflag hto hf =>
    refine .quiet ?_ rfl rfl fun m h => h
    exact marks_setFace_same hf rfl rfl
  | overflow hseg hto hf => exact filing_overflow hto hown
  | register running ht hf hr => exact filing_register ht hf hr
  | @turnAway lanes n f running ht hf hr =>
    refine .turnedAway n f.id ((marks_post ..).trans (marks_setFace ..)) (by simp [setFace])
      (by simpa [setFace] using Lanes.toList_of_take ht) fun m h =>
        h.of_eq (by simp [setFace]) (by simp [setFace]) (by simp [setFace])
  | publish hp hf => exact filing_publish hp
  | retire =>
    refine .quiet rfl rfl rfl fun m h => ?_
    rcases h with h | h | h | h
    · exact .inl h
    · exact .inr (.inl h)
    · cases h
    · exact .inr (.inr (.inr h))
  | close => exact filing_close v

/-! ### Entries -/

/-- Every entry is an open connection under its own id, and every staged connection is open, not yet
registered and not yet handed over. -/
structure Filed (v : View) : Prop where
  nodup : (v.registry.entries.map (·.1)).Nodup
  entry : ∀ id n, (id, n) ∈ v.registry.entries → v.marks[n]? = some (id, false)
  staged_nodup : v.staged.toList.Nodup
  staged_open : ∀ n ∈ v.staged.toList, ∃ id, v.marks[n]? = some (id, false)
  staged_apart : ∀ id n, (id, n) ∈ v.registry.entries → n ∉ v.staged.toList
  handed_lt : ∀ n, v.Handed n → n < v.marks.length
  handed_apart : ∀ n, v.Handed n → n ∉ v.staged.toList

theorem Filed.mark_of_lookup (h : v.Filed) {id : Int32} {n : Nat} (hl : v.registry.lookup id = some n) :
    v.marks[n]? = some (id, false) := h.entry id n (Registry.mem_of_lookup hl)

/-- What is registered is open, and can be reached. -/
theorem Filed.addressee_of_lookup (h : v.Filed) (hco : v.Coherent) {id : Int32} {n : Nat}
    (hl : v.registry.lookup id = some n) : v.addressee id = some n := by
  have hmark := h.mark_of_lookup hl
  have hrunning : v.registry.closed = false := by
    refine Bool.eq_false_iff.2 fun hc => ?_
    have := Registry.mem_of_lookup hl
    rw [hco.no_entries (hco.registry.symm.trans hc)] at this
    cases this
  simp only [marks, List.getElem?_map, Option.map_eq_some_iff] at hmark
  obtain ⟨f, hf, he⟩ := hmark
  have hopen : f.closed = false := (Prod.mk.inj he).2
  simp only [addressee, Registry.get?, hrunning, Bool.false_eq_true, ↓reduceIte, hl, hf, hopen]

theorem lt_length_of_mark {n : Nat} {mark : Int32 × Bool} (h : v.marks[n]? = some mark) :
    n < v.marks.length := (List.getElem?_eq_some_iff.1 h).1

/-- A new entry under a free id. -/
theorem nodup_append_free {entries : List (Int32 × Nat)} {closed : Bool} {id : Int32} (n : Nat)
    (h : (entries.map (·.1)).Nodup) (free : Registry.lookup ⟨entries, closed⟩ id = none) :
    ((entries ++ [(id, n)]).map (·.1)).Nodup := by
  rw [List.map_append, List.nodup_append]
  refine ⟨h, by simp, fun a ha b hb hab => ?_⟩
  obtain ⟨⟨i, m⟩, hmem, rfl⟩ := List.mem_map.1 ha
  obtain rfl : b = id := by simpa using hb
  have : Registry.lookup ⟨entries, closed⟩ i = some m := Registry.lookup_of_mem h hmem
  dsimp only at hab
  rw [hab, free] at this
  cases this

/-- A step that changes nothing of it. -/
theorem Filed.same (h : v.Filed) (marks : w.marks = v.marks) (entries : w.registry.entries = v.registry.entries)
    (staged : w.staged.toList = v.staged.toList) (handed : ∀ n, w.Handed n → v.Handed n) : w.Filed := by
  exact {
    nodup := entries ▸ h.nodup
    entry := by rw [marks, entries]; exact h.entry
    staged_nodup := staged ▸ h.staged_nodup
    staged_open := by rw [marks, staged]; exact h.staged_open
    staged_apart := by rw [entries, staged]; exact h.staged_apart
    handed_lt := fun n hn => marks ▸ h.handed_lt n (handed n hn)
    handed_apart := fun n hn => staged ▸ h.handed_apart n (handed n hn) }

/-- A connection that is made and registered stands under a free id. -/
theorem Filed.opened (h : v.Filed) {id : Int32} (free : v.registry.lookup id = none)
    (marks : w.marks = v.marks ++ [(id, false)])
    (entries : w.registry.entries = v.registry.entries ++ [(id, v.marks.length)])
    (staged : w.staged.toList = v.staged.toList) (handed : ∀ n, w.Handed n → v.Handed n ∨ n = v.marks.length) :
    w.Filed := by
  have hnew : v.marks.length ∉ v.staged.toList := fun hmem => by
    obtain ⟨_, hm⟩ := h.staged_open _ hmem
    exact absurd (lt_length_of_mark hm) (Nat.lt_irrefl _)
  exact {
    nodup := by rw [entries]; exact nodup_append_free _ h.nodup free
    entry := fun i n hn => by
      rw [entries, List.mem_append, List.mem_singleton] at hn
      rw [marks]
      rcases hn with hn | hn
      · have := h.entry i n hn
        rwa [List.getElem?_append_left (lt_length_of_mark this)]
      · cases hn; simp
    staged_nodup := staged ▸ h.staged_nodup
    staged_open := fun n hn => by
      obtain ⟨i, hm⟩ := h.staged_open n (staged ▸ hn)
      exact ⟨i, by rw [marks, List.getElem?_append_left (lt_length_of_mark hm), hm]⟩
    staged_apart := fun i n hn => by
      rw [entries, List.mem_append, List.mem_singleton] at hn
      rw [staged]
      rcases hn with hn | hn
      · exact h.staged_apart i n hn
      · cases hn; exact hnew
    handed_lt := fun n hn => by
      rw [marks, List.length_append, List.length_singleton]
      rcases handed n hn with hn | rfl
      · have := h.handed_lt n hn; omega
      · omega
    handed_apart := fun n hn => by
      rw [staged]
      rcases handed n hn with hn | rfl
      · exact h.handed_apart n hn
      · exact hnew }

/-- A connection that is made and staged is not registered yet. -/
theorem Filed.asked (h : v.Filed) {id : Int32} {closed : Bool} (marks : w.marks = v.marks ++ [(id, closed)])
    (entries : w.registry.entries = v.registry.entries)
    (staged : w.staged.toList = if closed then v.staged.toList else v.staged.toList ++ [v.marks.length])
    (handed : ∀ n, w.Handed n → v.Handed n) : w.Filed := by
  have hold {n : Nat} {mark : Int32 × Bool} (hm : v.marks[n]? = some mark) :
      w.marks[n]? = some mark := by
    rw [marks, List.getElem?_append_left (lt_length_of_mark hm), hm]
  have hstaged {n : Nat} (hn : n ∈ w.staged.toList) :
      n ∈ v.staged.toList ∨ closed = false ∧ n = v.marks.length := by
    rw [staged] at hn
    cases closed
    · simpa using hn
    · exact .inl (by simpa using hn)
  exact {
    nodup := entries ▸ h.nodup
    entry := fun i n hn => hold (h.entry i n (entries ▸ hn))
    staged_nodup := by
      rw [staged]
      cases closed
      · rw [if_neg (by simp), List.nodup_append]
        refine ⟨h.staged_nodup, by simp, fun a ha b hb hab => ?_⟩
        obtain ⟨_, hm⟩ := h.staged_open a ha
        have := lt_length_of_mark hm
        rw [List.mem_singleton] at hb
        omega
      · simpa using h.staged_nodup
    staged_open := fun n hn => by
      rcases hstaged hn with hn | ⟨rfl, rfl⟩
      · obtain ⟨i, hm⟩ := h.staged_open n hn
        exact ⟨i, hold hm⟩
      · exact ⟨id, by simp [marks]⟩
    staged_apart := fun i n hn hmem => by
      rw [entries] at hn
      rcases hstaged hmem with hmem | ⟨-, rfl⟩
      · exact h.staged_apart i n hn hmem
      · exact absurd (lt_length_of_mark (h.entry i _ hn)) (Nat.lt_irrefl _)
    handed_lt := fun n hn => by
      have := h.handed_lt n (handed n hn)
      rw [marks, List.length_append]
      omega
    handed_apart := fun n hn hmem => by
      rcases hstaged hmem with hmem | ⟨-, rfl⟩
      · exact h.handed_apart n (handed n hn) hmem
      · exact absurd (h.handed_lt _ (handed _ hn)) (Nat.lt_irrefl _) }

/-- The first of the staged connections leaves their line as it is registered. -/
theorem Filed.registered (h : v.Filed) {n : Nat} {id : Int32} {closed : Bool}
    (mark : v.marks[n]? = some (id, closed)) (free : v.registry.lookup id = none) (marks : w.marks = v.marks)
    (entries : w.registry.entries = v.registry.entries ++ [(id, n)])
    (staged : v.staged.toList = n :: w.staged.toList) (handed : ∀ m, w.Handed m → v.Handed m ∨ m = n) :
    w.Filed := by
  have hnodup := h.staged_nodup
  rw [staged, List.nodup_cons] at hnodup
  have hstaged {m : Nat} (hm : m ∈ w.staged.toList) : m ∈ v.staged.toList := by
    rw [staged]; exact List.mem_cons_of_mem _ hm
  have hmark : v.marks[n]? = some (id, false) := by
    obtain ⟨i, hi⟩ := h.staged_open n (by rw [staged]; exact List.mem_cons_self)
    rw [mark] at hi
    cases hi
    exact mark
  exact {
    nodup := by rw [entries]; exact nodup_append_free _ h.nodup free
    entry := fun i m hm => by
      rw [entries, List.mem_append, List.mem_singleton] at hm
      rw [marks]
      rcases hm with hm | hm
      · exact h.entry i m hm
      · cases hm; exact hmark
    staged_nodup := hnodup.2
    staged_open := fun m hm => marks ▸ h.staged_open m (hstaged hm)
    staged_apart := fun i m hm hmem => by
      rw [entries, List.mem_append, List.mem_singleton] at hm
      rcases hm with hm | hm
      · exact h.staged_apart i m hm (hstaged hmem)
      · cases hm; exact hnodup.1 hmem
    handed_lt := fun m hm => by
      rw [marks]
      rcases handed m hm with hm | rfl
      · exact h.handed_lt m hm
      · exact lt_length_of_mark mark
    handed_apart := fun m hm hmem => by
      rcases handed m hm with hm | rfl
      · exact h.handed_apart m hm (hstaged hmem)
      · exact hnodup.1 hmem }

/-- A connection that is turned away was staged, so no entry is closed. -/
theorem Filed.turnedAway (h : v.Filed) {n : Nat} {id : Int32} (marks : w.marks = v.marks.set n (id, true))
    (entries : w.registry.entries = v.registry.entries) (staged : v.staged.toList = n :: w.staged.toList)
    (handed : ∀ m, w.Handed m → v.Handed m) : w.Filed := by
  have hnodup := h.staged_nodup
  rw [staged, List.nodup_cons] at hnodup
  have hn : n ∈ v.staged.toList := by rw [staged]; exact List.mem_cons_self
  have hstaged {m : Nat} (hm : m ∈ w.staged.toList) : m ∈ v.staged.toList := by
    rw [staged]; exact List.mem_cons_of_mem _ hm
  have hother {m : Nat} (hm : m ≠ n) : w.marks[m]? = v.marks[m]? := by
    rw [marks, List.getElem?_set_ne (Ne.symm hm)]
  exact {
    nodup := entries ▸ h.nodup
    entry := fun i m hm => by
      rw [entries] at hm
      have hne : m ≠ n := fun he => h.staged_apart i m hm (he ▸ hn)
      rw [hother hne]
      exact h.entry i m hm
    staged_nodup := hnodup.2
    staged_open := fun m hm => by
      have hne : m ≠ n := fun he => hnodup.1 (he ▸ hm)
      rw [hother hne]
      exact h.staged_open m (hstaged hm)
    staged_apart := fun i m hm hmem => h.staged_apart i m (entries ▸ hm) (hstaged hmem)
    handed_lt := fun m hm => by
      rw [marks, List.length_set]
      exact h.handed_lt m (handed m hm)
    handed_apart := fun m hm hmem => h.handed_apart m (handed m hm) (hstaged hmem) }

/-- With a connection that is closed what stands under its id goes, so no entry is closed. -/
theorem Filed.dropped (h : v.Filed) {n : Nat} {id : Int32} {closed : Bool} (mark : v.marks[n]? = some (id, closed))
    (held : v.Handed n ∨ v.registry.lookup id = some n) (marks : w.marks = v.marks.set n (id, true))
    (entries : w.registry.entries = (v.registry.delete id).1.entries)
    (staged : w.staged.toList = v.staged.toList) (handed : ∀ m, w.Handed m → v.Handed m) : w.Filed := by
  have hother {m : Nat} (hm : m ≠ n) : w.marks[m]? = v.marks[m]? := by
    rw [marks, List.getElem?_set_ne (Ne.symm hm)]
  have hentry {i : Int32} {m : Nat} (hm : (i, m) ∈ w.registry.entries) :
      (i, m) ∈ v.registry.entries ∧ i ≠ id := by
    rw [entries] at hm
    simpa [Registry.delete] using hm
  have hunstaged : n ∉ v.staged.toList := by
    rcases held with held | held
    · exact h.handed_apart n held
    · exact h.staged_apart id n (Registry.mem_of_lookup held)
  exact {
    nodup := by
      rw [entries]
      exact h.nodup.sublist (List.Sublist.map _ List.filter_sublist)
    entry := fun i m hm => by
      obtain ⟨hm, hi⟩ := hentry hm
      have hne : m ≠ n := fun he => by
        have := h.entry i m hm
        rw [he, mark] at this
        simp only [Option.some.injEq, Prod.mk.injEq] at this
        exact hi this.1.symm
      rw [hother hne]
      exact h.entry i m hm
    staged_nodup := staged ▸ h.staged_nodup
    staged_open := fun m hm => by
      rw [staged] at hm
      have hne : m ≠ n := fun he => hunstaged (he ▸ hm)
      rw [hother hne]
      exact h.staged_open m hm
    staged_apart := fun i m hm => staged ▸ h.staged_apart i m (hentry hm).1
    handed_lt := fun m hm => by
      rw [marks, List.length_set]
      exact h.handed_lt m (handed m hm)
    handed_apart := fun m hm => staged ▸ h.handed_apart m (handed m hm) }

/-- The end of the session leaves no entry and nothing staged. -/
theorem Filed.ended (h : v.Filed) (ids : ∀ (n : Nat) (id : Int32) (closed : Bool), v.marks[n]? = some (id, closed) →
      ∃ c, w.marks[n]? = some (id, c)) (entries : w.registry.entries = []) (staged : w.staged.toList = [])
    (handed : ∀ m, w.Handed m → v.Handed m) : w.Filed := by
  exact {
    nodup := by rw [entries]; simp
    entry := fun i m hm => by rw [entries] at hm; cases hm
    staged_nodup := by rw [staged]; simp
    staged_open := fun m hm => by rw [staged] at hm; cases hm
    staged_apart := fun i m hm => by rw [entries] at hm; cases hm
    handed_lt := fun m hm => by
      have hlt := h.handed_lt m (handed m hm)
      obtain ⟨c, hc⟩ := ids m _ _ (List.getElem?_eq_getElem hlt)
      exact lt_length_of_mark hc
    handed_apart := fun m hm => by rw [staged]; simp }

theorem Filing.filed (hf : Filing may v w) (h : v.Filed) : w.Filed := by
  cases hf with
  | same marks entries staged handed => exact h.same marks entries staged handed
  | opened id free marks entries staged handed => exact h.opened free marks entries staged handed
  | asked id closed marks entries staged handed => exact h.asked marks entries staged handed
  | registered n id closed mark free marks entries staged handed =>
    exact h.registered mark free marks entries staged handed
  | turnedAway n id marks entries staged handed => exact h.turnedAway marks entries staged handed
  | dropped n id closed mark held safe marks entries staged handed =>
    exact h.dropped mark held marks entries staged handed
  | ended ids marks entries staged handed => exact h.ended ids entries staged handed

/-- A connection keeps its id, and one that is not staged is not staged later. -/
theorem Filing.keeps (hf : Filing may v w) {n : Nat} {id : Int32} {closed : Bool}
    (hm : v.marks[n]? = some (id, closed)) (hn : n ∉ v.staged.toList) :
    (∃ c, w.marks[n]? = some (id, c)) ∧ n ∉ w.staged.toList := by
  have hlt := lt_length_of_mark hm
  cases hf with
  | same marks entries staged => exact ⟨⟨closed, marks ▸ hm⟩, staged ▸ hn⟩
  | opened _ _ marks _ staged =>
    exact ⟨⟨closed, by rw [marks, List.getElem?_append_left hlt, hm]⟩, staged ▸ hn⟩
  | asked _ shut marks _ staged =>
    refine ⟨⟨closed, by rw [marks, List.getElem?_append_left hlt, hm]⟩, ?_⟩
    rw [staged]
    split
    · exact hn
    · rw [List.mem_append, List.mem_singleton, not_or]
      exact ⟨hn, by omega⟩
  | registered _ _ _ _ _ marks _ staged =>
    refine ⟨⟨closed, marks ▸ hm⟩, fun hmem => hn ?_⟩
    rw [staged]; exact List.mem_cons_of_mem _ hmem
  | turnedAway m _ marks _ staged =>
    have hne : m ≠ n := fun he => hn (by rw [staged, he]; exact List.mem_cons_self)
    refine ⟨⟨closed, by rw [marks, List.getElem?_set_ne hne, hm]⟩, fun hmem => hn ?_⟩
    rw [staged]; exact List.mem_cons_of_mem _ hmem
  | dropped m i c mark _ _ marks _ staged =>
    refine ⟨?_, staged ▸ hn⟩
    by_cases hmn : m = n
    · subst hmn
      rw [mark] at hm
      cases hm
      exact ⟨true, by rw [marks, List.getElem?_set_self hlt]⟩
    · exact ⟨closed, by rw [marks, List.getElem?_set_ne hmn, hm]⟩
  | ended ids _ _ staged => exact ⟨ids n id closed hm, by rw [staged]; simp⟩

theorem Step.filed (hs : Step may v w) (h : v.Filed) : w.Filed :=
  (hs.filing fun _ _ hl => ⟨false, h.mark_of_lookup hl⟩).filed h

theorem Steps.filed (hs : Steps may v w) (h : v.Filed) : w.Filed := by
  induction hs with
  | refl => exact h
  | tail _ hs ih => exact hs.filed ih

theorem Steps.keeps (hs : Steps may v w) (h : v.Filed) {n : Nat} {id : Int32} {closed : Bool}
    (hm : v.marks[n]? = some (id, closed)) (hn : n ∉ v.staged.toList) :
    (∃ c, w.marks[n]? = some (id, c)) ∧ n ∉ w.staged.toList := by
  induction hs with
  | refl => exact ⟨⟨closed, hm⟩, hn⟩
  | tail hsteps hs ih =>
    obtain ⟨⟨c, hc⟩, hn⟩ := ih
    have hfiled := Steps.filed hsteps h
    exact (hs.filing fun _ _ hl => ⟨false, hfiled.mark_of_lookup hl⟩).keeps hc hn

end View

namespace Session

theorem exists_of_mark {s : Session} {n : Nat} {id : Int32} {closed : Bool} (h : s.view.marks[n]? = some (id, closed)) :
    ∃ c, s.conns[n]? = some c ∧ c.id = id ∧ c.closed = closed := by
  simp only [View.marks, List.getElem?_map, view_faces_getElem?, Option.map_map,
    Option.map_eq_some_iff] at h
  obtain ⟨c, hc, he⟩ := h
  cases he
  exact ⟨c, hc, rfl, rfl⟩

theorem mark_of_conn {s : Session} {n : Nat} {c : Conn} (h : s.conns[n]? = some c) :
    s.view.marks[n]? = some (c.id, c.closed) :=
  View.marks_getElem? (f := c.face) (by simp [h])

theorem filed_start (settings : Settings) (kind : LinkKind) (address : Option String)
    (capacity : Option Nat) (wall : Stamp) :
    (start settings kind address capacity wall).view.Filed where
  nodup := List.nodup_nil
  entry _ _ h := by cases h
  staged_nodup := List.nodup_nil
  staged_open _ h := by cases h
  staged_apart _ _ h := by cases h
  handed_lt n h := by
    rcases h with ⟨_, h, _⟩ | h | h | ⟨_, h, _⟩ <;> cases h
  handed_apart n h := by
    rcases h with ⟨_, h, _⟩ | h | h | ⟨_, h, _⟩ <;> cases h

end Session

namespace View

variable {v w : View} {may : View → Nat → Prop}

/-! ### Agreement -/

/-- Every open connection that is no longer staged is the entry under its id. -/
def Agrees (v : View) : Prop :=
  ∀ n id, v.marks[n]? = some (id, false) → n ∉ v.staged.toList → v.registry.lookup id = some n

/-- The same for the connections with this id. -/
def AgreesOn (id : Int32) (v : View) : Prop :=
  ∀ n, v.marks[n]? = some (id, false) → n ∉ v.staged.toList → v.registry.lookup id = some n

/-- To give this connection up would remove another one: it is closed, and its id is used again. -/
def Displaces (v : View) (n : Nat) : Prop :=
  ∃ id other, v.marks[n]? = some (id, true) ∧ v.registry.lookup id = some other

theorem lookup_congr {r r' : Registry Nat} (h : r'.entries = r.entries) (id : Int32) :
    r'.lookup id = r.lookup id := by
  rw [Registry.lookup, Registry.lookup, h]

theorem lookup_append_of_ne {r r' : Registry Nat} {id i : Int32} {n : Nat}
    (h : r'.entries = r.entries ++ [(id, n)]) (hi : i ≠ id) : r'.lookup i = r.lookup i := by
  rw [Registry.lookup, h, List.lookup_append]
  cases hl : List.lookup i r.entries with
  | some m => rw [Registry.lookup, hl]; rfl
  | none => rw [Registry.lookup, hl]; simp [List.lookup_cons, beq_eq_false_iff_ne.2 hi]

theorem lookup_append_of_free {r r' : Registry Nat} {id : Int32} {n : Nat}
    (h : r'.entries = r.entries ++ [(id, n)]) (free : r.lookup id = none) :
    r'.lookup id = some n := by
  rw [Registry.lookup] at free ⊢
  rw [h, List.lookup_append, free]
  simp

/-- Whoever is found under an id is found under it still if another id gets an entry. -/
theorem lookup_of_entered {r r' : Registry Nat} {id i : Int32} {n m : Nat} (he : r'.entries = r.entries ++ [(id, n)])
    (free : r.lookup id = none) (hl : r.lookup i = some m) : r'.lookup i = some m := by
  have hi : i ≠ id := fun hi => by rw [hi, free] at hl; cases hl
  rw [lookup_append_of_ne he hi, hl]

namespace AgreesOn

variable {i id : Int32} {n : Nat} {closed : Bool}

theorem opened (h : v.AgreesOn i) (free : v.registry.lookup id = none) (marks : w.marks = v.marks ++ [(id, false)])
    (entries : w.registry.entries = v.registry.entries ++ [(id, v.marks.length)])
    (staged : w.staged.toList = v.staged.toList) : w.AgreesOn i := by
  intro n hm hn
  rw [marks] at hm
  by_cases hlt : n < v.marks.length
  · rw [List.getElem?_append_left hlt] at hm
    exact lookup_of_entered entries free (h n hm (staged ▸ hn))
  · have hle : v.marks.length ≤ n := Nat.le_of_not_lt hlt
    rw [List.getElem?_append_right hle, List.getElem?_singleton] at hm
    split at hm
    · cases hm
      obtain rfl : n = v.marks.length := by omega
      exact lookup_append_of_free entries free
    · cases hm

theorem asked (h : v.AgreesOn i) (marks : w.marks = v.marks ++ [(id, closed)])
    (entries : w.registry.entries = v.registry.entries)
    (staged : w.staged.toList = if closed then v.staged.toList else v.staged.toList ++ [v.marks.length]) :
    w.AgreesOn i := by
  intro n hm hn
  rw [lookup_congr entries]
  rw [marks] at hm
  by_cases hlt : n < v.marks.length
  · rw [List.getElem?_append_left hlt] at hm
    refine h n hm fun hmem => hn ?_
    rw [staged]
    split
    · exact hmem
    · exact List.mem_append_left _ hmem
  · have hle : v.marks.length ≤ n := Nat.le_of_not_lt hlt
    rw [List.getElem?_append_right hle, List.getElem?_singleton] at hm
    split at hm
    · cases hm
      obtain rfl : n = v.marks.length := by omega
      exact absurd (by rw [staged]; simp) hn
    · cases hm

theorem registered (h : v.AgreesOn i) (mark : v.marks[n]? = some (id, closed)) (free : v.registry.lookup id = none)
    (marks : w.marks = v.marks) (entries : w.registry.entries = v.registry.entries ++ [(id, n)])
    (staged : v.staged.toList = n :: w.staged.toList) : w.AgreesOn i := by
  intro m hm hn
  rw [marks] at hm
  by_cases hmn : m = n
  · subst hmn
    rw [mark] at hm
    cases hm
    exact lookup_append_of_free entries free
  · refine lookup_of_entered entries free (h m hm fun hmem => ?_)
    rw [staged] at hmem
    exact (List.mem_cons.1 hmem).elim hmn hn

theorem turnedAway (h : v.AgreesOn i) (marks : w.marks = v.marks.set n (id, true))
    (entries : w.registry.entries = v.registry.entries) (staged : v.staged.toList = n :: w.staged.toList) :
    w.AgreesOn i := by
  intro m hm hn
  rw [lookup_congr entries]
  rw [marks, List.getElem?_set] at hm
  split at hm
  · split at hm <;> cases hm
  · rename_i hne
    refine h m hm fun hmem => ?_
    rw [staged] at hmem
    exact (List.mem_cons.1 hmem).elim (fun he => hne he.symm) hn

/-- The id that is given up is not `i` while another connection is found there. -/
theorem dropped (h : v.AgreesOn i) (hfiled : v.Filed)
    (hsafe : ∀ n, may v n → v.marks[n]? = some (i, true) → v.registry.lookup i = none)
    (mark : v.marks[n]? = some (id, closed)) (held : v.Handed n ∨ v.registry.lookup id = some n)
    (safe : closed = false ∨ may v n) (marks : w.marks = v.marks.set n (id, true))
    (entries : w.registry.entries = (v.registry.delete id).1.entries)
    (staged : w.staged.toList = v.staged.toList) : w.AgreesOn i := by
  intro m hm hn
  rw [marks, List.getElem?_set] at hm
  split at hm
  · split at hm <;> cases hm
  · rename_i hne
    have hl := h m hm (staged ▸ hn)
    have hi : i ≠ id := by
      rintro rfl
      rcases held with held | held
      · cases closed
        · have := h n mark (hfiled.handed_apart n held)
          rw [hl] at this
          exact hne (Option.some.inj this).symm
        · rcases safe with safe | safe
          · cases safe
          · rw [hsafe n safe mark] at hl
            cases hl
      · rw [hl] at held
        exact hne (Option.some.inj held).symm
    rw [lookup_congr entries, Registry.lookup_delete, if_neg hi, hl]

end AgreesOn

/-- A step keeps the agreement on an id if no closed connection gives it up while another one has it. -/
theorem Filing.agreesOn (hf : Filing may v w) (hfiled : v.Filed) {i : Int32}
    (hsafe : ∀ n, may v n → v.marks[n]? = some (i, true) → v.registry.lookup i = none)
    (h : v.AgreesOn i) : w.AgreesOn i := by
  cases hf with
  | same marks entries staged handed =>
    intro n hm hn
    rw [lookup_congr entries]
    exact h n (marks ▸ hm) (staged ▸ hn)
  | opened id free marks entries staged => exact h.opened free marks entries staged
  | asked id closed marks entries staged => exact h.asked marks entries staged
  | registered n id closed mark free marks entries staged => exact h.registered mark free marks entries staged
  | turnedAway n id marks entries staged => exact h.turnedAway marks entries staged
  | dropped n id closed mark held safe marks entries staged =>
    exact h.dropped hfiled hsafe mark held safe marks entries staged
  | ended ids marks entries staged handed =>
    intro m hm hn
    obtain ⟨hm, hunstaged, hout⟩ := marks m i hm
    exact absurd (Registry.mem_of_lookup (h m hm hunstaged)) (hout i)

/-- A step that displaces no connection keeps the agreement. -/
theorem Filing.agrees (hf : Filing (fun v n => ¬ v.Displaces n) v w) (hfiled : v.Filed)
    (h : v.Agrees) : w.Agrees := by
  intro n id hm hn
  refine hf.agreesOn hfiled (fun k hk hmark => ?_) (fun m hm hn => h m id hm hn) n hm hn
  rcases hl : v.registry.lookup id with _ | other
  · rfl
  · exact absurd ⟨id, other, hmark, hl⟩ hk

theorem Step.agrees (hs : Step (fun v n => ¬ v.Displaces n) v w) (hfiled : v.Filed) (h : v.Agrees) :
    w.Agrees :=
  (hs.filing fun _ _ hl => ⟨false, hfiled.mark_of_lookup hl⟩).agrees hfiled h

theorem Steps.agrees (hs : Steps (fun v n => ¬ v.Displaces n) v w) (hfiled : v.Filed)
    (h : v.Agrees) : w.Agrees := by
  induction hs with
  | refl => exact h
  | tail hsteps hs ih => exact hs.agrees (Steps.filed hsteps hfiled) ih

end View

end StreamMux
