import Mathlib.Logic.Function.Basic

/-! The handshake under one id. At each end the id has a seat: the connection that is registered, those
that are staged, and how far every connection has come. Between the ends the words under way keep their
order, but for talk, which may overtake. Whatever the ends do, an answer meets the request that it
answers, and talk meets the counterpart of its speaker or a connection that was not confirmed yet. -/

namespace StreamMux

/-- What a frame says under an id: a request for a connection, an answer to one, or talk on one. -/
inductive Word
  | ask
  | yes
  | no
  | talk
  deriving DecidableEq

namespace Word

def isAsk : Word → Bool
  | .ask => true
  | _ => false

def isAnswer : Word → Bool
  | .yes | .no => true
  | _ => false

end Word

/-- A word, and the connection that it was queued for. -/
abbrev Saying := Word × Nat

/-- After a request its end does not talk, and after a confirmation only the confirmed connection does. -/
def InOrder (x y : Saying) : Prop :=
  (x.1 = .ask → y.1 ≠ .talk) ∧ (x.1 = .yes → y.1 = .talk → y.2 = x.2)

/-- How far a connection has come: the peer asked for it, or has not answered, accepted or refused it. -/
inductive Standing
  | unasked
  | asking
  | accepted
  | refused
  deriving DecidableEq

namespace Standing

/-- The connection may be used. -/
def settled : Standing → Bool
  | .unasked | .accepted => true
  | _ => false

/-- Take an answer, if one is awaited. -/
def answer (yes : Bool) : Standing → Standing
  | .asking => if yes then .accepted else .refused
  | s => s

end Standing

@[ext]
structure Seat where
  /-- The session runs. -/
  live : Bool
  /-- The connection that is registered under the id. -/
  holder : Option Nat
  staged : List Nat
  /-- The connection that is registered and not yet confirmed. -/
  publishing : Option Nat
  standing : Nat → Option Standing

/-- The connection waits for an answer, and is registered as long as the session runs. -/
def Seat.Asking (m : Nat) (p : Seat) : Prop :=
  p.standing m = some .asking ∧ (p.live = true → p.holder = some m)

/-- The connection is registered and may be used. -/
def Seat.Settled (n : Nat) (p : Seat) : Prop :=
  p.live = true ∧ p.holder = some n ∧ ∃ s, p.standing n = some s ∧ s.settled = true

/-- What one end does under the id, with the word that it says and the word that it hears; `tied` is
which of the peer's requests became which connection. -/
inductive Act (tied : Nat → Nat → Prop) : Seat → Seat → Option Saying → Option Saying → Prop
  | idle {p : Seat} : Act tied p p none none
  /-- The user asks for a connection. -/
  | ask {p : Seat} {n : Nat} (live : p.live = true) (free : p.holder = none)
      (fresh : p.standing n = none) :
      Act tied p { p with holder := some n, standing := Function.update p.standing n (some .asking) }
        (some (.ask, n)) none
  /-- The peer asks for a connection. -/
  | stage {p : Seat} {m n : Nat} (fresh : p.standing n = none) (tie : tied m n) :
      Act tied p { p with
        staged := p.staged ++ [n], standing := Function.update p.standing n (some .unasked) }
        none (some (.ask, m))
  /-- The peer asks for a connection after the end of the session. -/
  | late {p : Seat} {m n : Nat} (fresh : p.standing n = none) :
      Act tied p { p with standing := Function.update p.standing n (some .unasked) } none (some (.ask, m))
  /-- A staged connection is registered. -/
  | register {p : Seat} {n : Nat} {rest : List Nat} (live : p.live = true) (front : p.staged = n :: rest)
      (free : p.holder = none) :
      Act tied p { p with staged := rest, holder := some n, publishing := some n } none none
  /-- A staged connection is refused. -/
  | turnAway {p : Seat} {n : Nat} {rest : List Nat} (front : p.staged = n :: rest) :
      Act tied p { p with staged := rest } (some (.no, n)) none
  /-- A registered connection is confirmed. -/
  | publish {p : Seat} {n : Nat} (hp : p.publishing = some n) :
      Act tied p { p with publishing := none } (some (.yes, n)) none
  /-- A registered connection will not be confirmed. -/
  | withhold {p : Seat} : Act tied p { p with publishing := none } none none
  /-- The peer answers. -/
  | answer {p : Seat} {n k : Nat} {yes : Bool} (live : p.live = true) (held : p.holder = some n) :
      Act tied p { p with
        standing := Function.update p.standing n ((p.standing n).map (Standing.answer yes)) }
        none (some (if yes then .yes else .no, k))
  /-- The connection talks. -/
  | talk {p : Seat} {n : Nat} (settled : p.Settled n) : Act tied p p (some (.talk, n)) none
  /-- The connection is closed, with a word or without. -/
  | leave {p : Seat} {n : Nat} {said heard : Option Saying} (settled : p.Settled n)
      (hsaid : said = none ∨ said = some (.talk, n))
      (hheard : heard = none ∨ ∃ m, heard = some (.talk, m)) :
      Act tied p { p with holder := none } said heard
  /-- A refused connection gives up the id. -/
  | giveUp {p : Seat} {n : Nat} (live : p.live = true) (held : p.holder = some n)
      (refused : p.standing n = some .refused) : Act tied p { p with holder := none } none none
  /-- A word comes in that reaches no connection, or talk that its connection takes in. -/
  | miss {p : Seat} {x : Saying} : Act tied p p none (some x)
  /-- The session ends. -/
  | fall {p : Seat} : Act tied p { p with live := false, holder := none, staged := [] } none none

/-- What a word does to those under way: nothing new, or a new one, behind all others unless it is
talk. -/
inductive Says : Option Saying → List Saying → List Saying → Prop
  | silent {words words' : List Saying} (h : words'.Sublist words) : Says none words words'
  | utters {x : Saying} {before after : List Saying} (h : x.1 ≠ .talk → after = []) :
      Says (some x) (before ++ after) (before ++ x :: after)

/-- An end: the seat of the id, the words under way from it, and the last connection that was
established, by being registered for the peer or by being confirmed by it. -/
structure End where
  seat : Seat
  words : List Saying
  last : Option Nat

/-! ### Requests -/

/-- The requests of one end, of which `t` tells what became of them at the other. At most one is in work:
on its way, staged, registered, or on its way back as an answer. As long as it is, the connection that
asked holds the id, and once it has come in nothing said before is under way. -/
structure Half (t : Nat → Nat → Prop) (a b : End) : Prop where
  single : (a.words.filter (·.1.isAsk)).length + b.seat.staged.length +
    b.seat.publishing.toList.length + (b.words.filter (·.1.isAnswer)).length ≤ 1
  asks : ∀ x ∈ a.words, x.1.isAsk = true → a.seat.Asking x.2
  staged : ∀ n ∈ b.seat.staged, ∃ m, t m n ∧ a.seat.Asking m
  publishing : ∀ n, b.seat.publishing = some n → ∃ m, t m n ∧ a.seat.Asking m
  answers : ∀ x ∈ b.words, x.1.isAnswer = true → ∃ m, t m x.2 ∧ a.seat.Asking m
  quiet : b.seat.staged ≠ [] → ∀ x ∈ a.words, x.1 ≠ .talk

namespace Half

variable {t t' : Nat → Nat → Prop} {a a' b b' : End}

/-- Requests go on or are lost. -/
theorem mono (h : Half t a b) (ht : ∀ m n, t m n → t' m n)
    (hasking : ∀ m, a.seat.Asking m → a'.seat.Asking m)
    (hasks : (a'.words.filter (·.1.isAsk)).Sublist (a.words.filter (·.1.isAsk)))
    (htalk : b'.seat.staged ≠ [] → ∀ x ∈ a'.words, x.1 = .talk → x ∈ a.words)
    (hstaged : b'.seat.staged.Sublist b.seat.staged)
    (hpublishing : ∀ n, b'.seat.publishing = some n → b.seat.publishing = some n)
    (hanswers : (b'.words.filter (·.1.isAnswer)).Sublist (b.words.filter (·.1.isAnswer))) :
    Half t' a' b' where
  single := by
    have h₁ := hasks.length_le
    have h₂ := hstaged.length_le
    have h₃ := hanswers.length_le
    have h₄ : b'.seat.publishing.toList.length ≤ b.seat.publishing.toList.length := by
      cases hp : b'.seat.publishing with
      | none => exact Nat.zero_le _
      | some n => exact Nat.le_of_eq (by rw [hpublishing n hp])
    have := h.single
    omega
  asks x hx hask := by
    have := hasks.subset (List.mem_filter.2 ⟨hx, hask⟩)
    exact hasking _ (h.asks x (List.mem_filter.1 this).1 hask)
  staged n hn := (h.staged n (hstaged.subset hn)).imp fun m hm => ⟨ht _ _ hm.1, hasking _ hm.2⟩
  publishing n hn := (h.publishing n (hpublishing n hn)).imp fun m hm => ⟨ht _ _ hm.1, hasking _ hm.2⟩
  answers x hx hanswer := by
    have := hanswers.subset (List.mem_filter.2 ⟨hx, hanswer⟩)
    exact (h.answers x (List.mem_filter.1 this).1 hanswer).imp fun m hm => ⟨ht _ _ hm.1, hasking _ hm.2⟩
  quiet hne x hx htalk' := by
    refine h.quiet (fun he => hne ?_) x (htalk hne x hx htalk') htalk'
    rw [he] at hstaged
    exact List.sublist_nil.1 hstaged

/-- No request is in work. -/
def Idle (a b : End) : Prop :=
  (∀ x ∈ a.words, x.1.isAsk = false) ∧ b.seat.staged = [] ∧ b.seat.publishing = none ∧
    ∀ x ∈ b.words, x.1.isAnswer = false

theorem Idle.asks_nil (h : Idle a b) : a.words.filter (·.1.isAsk) = [] :=
  List.filter_eq_nil_iff.2 fun x hx => by simp [h.1 x hx]

theorem Idle.answers_nil (h : Idle a b) : b.words.filter (·.1.isAnswer) = [] :=
  List.filter_eq_nil_iff.2 fun x hx => by simp [h.2.2.2 x hx]

theorem of_idle (h : Idle a b) : Half t a b where
  single := by
    rw [h.asks_nil, h.answers_nil, h.2.1, h.2.2.1]
    exact Nat.zero_le _
  asks x hx hask := by
    rw [h.1 x hx] at hask
    cases hask
  staged n hn := by
    rw [h.2.1] at hn
    cases hn
  publishing n hn := by
    rw [h.2.2.1] at hn
    cases hn
  answers x hx hanswer := by
    rw [h.2.2.2 x hx] at hanswer
    cases hanswer
  quiet hne := absurd h.2.1 hne

/-- Without a connection that waits for an answer, no request is in work. -/
theorem idle (h : Half t a b) (hno : ∀ m, ¬ a.seat.Asking m) : Idle a b := by
  refine ⟨fun x hx => ?_, List.eq_nil_iff_forall_not_mem.2 fun n hn => ?_, ?_, fun x hx => ?_⟩
  · exact Bool.eq_false_iff.2 fun hask => hno _ (h.asks x hx hask)
  · obtain ⟨m, -, hm⟩ := h.staged n hn
    exact hno m hm
  · cases hp : b.seat.publishing with
    | none => rfl
    | some n =>
      obtain ⟨m, -, hm⟩ := h.publishing n hp
      exact absurd hm (hno m)
  · refine Bool.eq_false_iff.2 fun hanswer => ?_
    obtain ⟨m, -, hm⟩ := h.answers x hx hanswer
    exact hno m hm

end Half

/-! ### Both ends -/

/-- What an end keeps on its own: the id is held by the last established connection or by one that the
peer has not accepted. -/
structure Own (a : End) : Prop where
  holder : ∀ n, a.seat.holder = some n → a.last = some n ∨
    a.seat.standing n = some .asking ∨ a.seat.standing n = some .refused
  last : ∀ n, a.last = some n → ∃ s, a.seat.standing n = some s ∧ s.settled = true
  staged : ∀ n ∈ a.seat.staged, a.seat.standing n = some .unasked
  order : a.words.Pairwise InOrder

/-- Which end has established a connection that the other has not. -/
inductive Phase
  | even
  | ahead
  | behind
  deriving DecidableEq

def Phase.flip : Phase → Phase
  | .even => .even
  | .ahead => .behind
  | .behind => .ahead

section Ties

variable (t s : Nat → Nat → Prop) (a b : End)

/-- The connection `m` of the one end and `n` of the other belong to one request. -/
def Tied (m n : Nat) : Prop := t m n ∨ s n m

/-- The last connections of both ends belong together, and only they talk. -/
def Level : Prop :=
  (a.last = none ∧ b.last = none ∨ ∃ m n, a.last = some m ∧ b.last = some n ∧ Tied t s m n) ∧
    (∀ x ∈ a.words, x.1 = .talk → a.last = some x.2) ∧ ∀ x ∈ b.words, x.1 = .talk → b.last = some x.2

/-- The end `a` has established a connection that was asked for by `b`, and of this `b` does not know
yet. No talk is under way from `b`, and what is under way from `a` is talk of this connection or of the
one before. -/
def Leads : Prop :=
  ∃ m n, a.last = some n ∧ s m n ∧ b.seat.Asking m ∧ a.seat.staged = [] ∧
    (∀ x ∈ b.words, x.1 ≠ .ask ∧ x.1 ≠ .talk) ∧ (∀ x ∈ a.words, x.1 ≠ .no) ∧
    ∀ x ∈ a.words, x.1 = .talk → x.2 = n ∨ ∃ r, b.last = some r ∧ Tied t s x.2 r

end Ties

/-- What is confirmed, or will be, is the last connection of an end that leads. -/
def Confirmed (leads : Prop) (a : End) : Prop :=
  ∀ n, a.seat.publishing = some n ∨ (.yes, n) ∈ a.words → leads ∧ a.last = some n

/-- The two ends fit each other: `t` tells which requests of `a` became which connections of `b`, and
`s` those of `b`. -/
structure Tidy (t s : Nat → Nat → Prop) (a b : End) (phase : Phase) : Prop where
  mine : Half t a b
  yours : Half s b a
  own : Own a
  others : Own b
  confirmed : Confirmed (phase = .ahead) a
  confirms : Confirmed (phase = .behind) b
  level : phase = .even → Level t s a b
  leads : phase = .ahead → Leads t s a b
  led : phase = .behind → Leads s t b a

section Symmetry

variable {t s : Nat → Nat → Prop} {a b : End} {m n : Nat} {phase : Phase}

theorem Tied.symm (h : Tied t s m n) : Tied s t n m := Or.symm h

theorem Level.symm (h : Level t s a b) : Level s t b a := by
  refine ⟨?_, h.2.2, h.2.1⟩
  rcases h.1 with ⟨ha, hb⟩ | ⟨m, n, ha, hb, ht⟩
  · exact .inl ⟨hb, ha⟩
  · exact .inr ⟨n, m, hb, ha, ht.symm⟩

theorem Tidy.symm (h : Tidy t s a b phase) : Tidy s t b a phase.flip where
  mine := h.yours
  yours := h.mine
  own := h.others
  others := h.own
  confirmed := fun n hn => ⟨by rw [(h.confirms n hn).1]; rfl, (h.confirms n hn).2⟩
  confirms := fun n hn => ⟨by rw [(h.confirmed n hn).1]; rfl, (h.confirmed n hn).2⟩
  level hp := (h.level (by cases phase <;> first | rfl | cases hp)).symm
  leads hp := h.led (by cases phase <;> first | rfl | cases hp)
  led hp := h.leads (by cases phase <;> first | rfl | cases hp)

end Symmetry

/-! ### What an act keeps -/

namespace Tidy

variable {t s t' s' : Nat → Nat → Prop} {a b : End} {phase : Phase} {n : Nat}

/-- More is known of what became of the requests. -/
theorem tie (h : Tidy t s a b phase) (ht : ∀ m n, t m n → t' m n) (hs : ∀ m n, s m n → s' m n) :
    Tidy t' s' a b phase where
  mine := h.mine.mono ht (fun _ hm => hm) (.refl _) (fun _ _ hx _ => hx) (.refl _) (fun _ hn => hn) (.refl _)
  yours := h.yours.mono hs (fun _ hm => hm) (.refl _) (fun _ _ hx _ => hx) (.refl _) (fun _ hn => hn)
    (.refl _)
  own := h.own
  others := h.others
  confirmed := h.confirmed
  confirms := h.confirms
  level hp := by
    obtain ⟨hlast, htalk⟩ := h.level hp
    refine ⟨hlast.imp_right ?_, htalk⟩
    rintro ⟨m, n, hm, hn, htied⟩
    exact ⟨m, n, hm, hn, htied.imp (ht m n) (hs n m)⟩
  leads hp := by
    obtain ⟨m, n, hlast, htied, hasking, hstaged, hwords, hno, htalk⟩ := h.leads hp
    refine ⟨m, n, hlast, hs m n htied, hasking, hstaged, hwords, hno, fun x hx hxt => ?_⟩
    refine (htalk x hx hxt).imp_right ?_
    rintro ⟨r, hr, htied⟩
    exact ⟨r, hr, htied.imp (ht _ _) (hs _ _)⟩
  led hp := by
    obtain ⟨m, n, hlast, htied, hasking, hstaged, hwords, hno, htalk⟩ := h.led hp
    refine ⟨m, n, hlast, ht m n htied, hasking, hstaged, hwords, hno, fun x hx hxt => ?_⟩
    refine (htalk x hx hxt).imp_right ?_
    rintro ⟨r, hr, htied⟩
    exact ⟨r, hr, htied.imp (hs _ _) (ht _ _)⟩

/-- Less is under way from the other end. -/
theorem lose (h : Tidy t s a b phase) {words : List Saying} (hw : words.Sublist b.words) :
    Tidy t s a { b with words } phase where
  mine := h.mine.mono (fun _ _ ht => ht) (fun _ hm => hm) (.refl _) (fun _ _ hx _ => hx) (.refl _)
    (fun _ hn => hn) (hw.filter _)
  yours := h.yours.mono (fun _ _ ht => ht) (fun _ hm => hm) (hw.filter _) (fun _ _ hx _ => hw.subset hx)
    (.refl _) (fun _ hn => hn) (.refl _)
  own := h.own
  others := { h.others with order := h.others.order.sublist hw }
  confirmed := h.confirmed
  confirms n hn := h.confirms n (hn.imp_right fun hx => hw.subset hx)
  level hp := by
    obtain ⟨hlast, htalk, htalks⟩ := h.level hp
    exact ⟨hlast, htalk, fun x hx => htalks x (hw.subset hx)⟩
  leads hp := by
    obtain ⟨m, n, hlast, htied, hasking, hstaged, hwords, hno, htalk⟩ := h.leads hp
    exact ⟨m, n, hlast, htied, hasking, hstaged, fun x hx => hwords x (hw.subset hx), hno, htalk⟩
  led hp := by
    obtain ⟨m, n, hlast, htied, hasking, hstaged, hwords, hno, htalk⟩ := h.led hp
    exact ⟨m, n, hlast, htied, hasking, hstaged, hwords, fun x hx => hno x (hw.subset hx),
      fun x hx => htalk x (hw.subset hx)⟩

theorem mem_of_mem_append {x y : Saying} {words : List Saying} (hx : x ∈ words ++ [y])
    (hne : x.1 ≠ y.1) : x ∈ words := by
  rcases List.mem_append.1 hx with hx | hx
  · exact hx
  · rw [List.mem_singleton.1 hx] at hne
    exact absurd rfl hne

theorem length_answers_append {x : Saying} (words : List Saying) (hx : x.1.isAnswer = true) :
    ((words ++ [x]).filter (·.1.isAnswer)).length = (words.filter (·.1.isAnswer)).length + 1 := by
  have hsingle : [x].filter (·.1.isAnswer) = [x] := List.filter_cons_of_pos hx
  rw [List.filter_append, hsingle, List.length_append, List.length_singleton]

/-- The holder does not wait for an answer, so no connection does. -/
theorem not_asking_of_holder {p : Seat} (live : p.live = true)
    (h : ∀ m, p.holder = some m → p.standing m ≠ some .asking) (m : Nat) : ¬ p.Asking m :=
  fun hm => h m (hm.2 live) hm.1

/-- A new connection. -/
theorem fresh (h : Tidy t s a b phase) (hn : a.seat.standing n = none) (st : Standing) :
    Tidy t s { a with seat :=
      { a.seat with standing := Function.update a.seat.standing n (some st) } } b phase := by
  have hother {k : Nat} {st' : Standing} (hk : a.seat.standing k = some st') :
      Function.update a.seat.standing n (some st) k = some st' := by
    rw [Function.update_of_ne (fun hkn => ?_), hk]
    rw [hkn, hn] at hk
    cases hk
  have hasking (m : Nat) (hm : a.seat.Asking m) :
      Seat.Asking m { a.seat with standing := Function.update a.seat.standing n (some st) } :=
    ⟨hother hm.1, hm.2⟩
  refine ⟨?_, ?_, ?_, h.others, h.confirmed, h.confirms, h.level, h.leads, fun hp => ?_⟩
  · exact h.mine.mono (fun _ _ ht => ht) hasking (.refl _) (fun _ _ hx _ => hx) (.refl _)
      (fun _ hn => hn) (.refl _)
  · exact h.yours.mono (fun _ _ ht => ht) (fun _ hm => hm) (.refl _) (fun _ _ hx _ => hx) (.refl _)
      (fun _ hn => hn) (.refl _)
  · exact {
      holder := fun k hk => (h.own.holder k hk).imp_right fun hk => hk.imp hother hother
      last := fun k hk => (h.own.last k hk).imp fun _ hst => ⟨hother hst.1, hst.2⟩
      staged := fun k hk => hother (h.own.staged k hk)
      order := h.own.order }
  · obtain ⟨m, k, hlast, htied, hm, hled⟩ := h.led hp
    exact ⟨m, k, hlast, htied, hasking m hm, hled⟩

/-- The user asks for a connection. -/
theorem asks (h : Tidy t s a b phase) (live : a.seat.live = true) (free : a.seat.holder = none)
    (hn : a.seat.standing n = some .asking) :
    Tidy t s { a with
      seat := { a.seat with holder := some n }
      words := a.words ++ [(.ask, n)] } b phase := by
  have hno := not_asking_of_holder live (p := a.seat) (fun m hm => by rw [free] at hm; cases hm)
  have hidle := h.mine.idle hno
  obtain ⟨hasks, hstaged, hpublishing, hanswers⟩ := h.mine.idle hno
  have hword (x : Saying) (hx : x ∈ a.words ++ [(Word.ask, n)]) (hne : x.1 ≠ .ask) : x ∈ a.words :=
    mem_of_mem_append hx hne
  refine ⟨?_, ?_, ?_, h.others, ?_, h.confirms, fun hp => ?_, fun hp => ?_, fun hp => ?_⟩
  · refine ⟨?_, fun x hx hask => ?_, ?_, ?_, ?_, fun hne => absurd hstaged hne⟩
    · show (List.filter _ (a.words ++ _)).length + _ + _ + _ ≤ 1
      rw [List.filter_append, hidle.asks_nil, hidle.answers_nil, hstaged, hpublishing]
      exact Nat.le_refl _
    · rcases List.mem_append.1 hx with hx | hx
      · rw [hasks x hx] at hask
        cases hask
      · rw [List.mem_singleton.1 hx]
        exact ⟨hn, fun _ => rfl⟩
    · exact fun k hk => absurd hk (by rw [hstaged]; exact List.not_mem_nil)
    · exact fun k hk => absurd hk (by rw [hpublishing]; simp)
    · exact fun x hx hanswer => absurd hanswer (by simp [hanswers x hx])
  · refine h.yours.mono (fun _ _ ht => ht) (fun _ hm => hm) (.refl _) (fun _ _ hx _ => hx) (.refl _)
      (fun _ hn => hn) ?_
    simp [Word.isAnswer]
  · refine ⟨fun k hk => ?_, h.own.last, h.own.staged, ?_⟩
    · cases hk
      exact .inr (.inl hn)
    · refine List.pairwise_append.2 ⟨h.own.order, List.pairwise_singleton .., fun x _ y hy => ?_⟩
      rw [List.mem_singleton.1 hy]
      exact ⟨fun _ => by simp, fun _ hy => by cases hy⟩
  · exact fun k hk => h.confirmed k (hk.imp_right fun hx => hword _ hx (by simp))
  · obtain ⟨hlast, htalk, htalks⟩ := h.level hp
    exact ⟨hlast, fun x hx hxt => htalk x (hword x hx (by simp [hxt])) hxt, htalks⟩
  · obtain ⟨m, k, hlast, htied, hasking, hempty, hwords, hnone, htalk⟩ := h.leads hp
    refine ⟨m, k, hlast, htied, hasking, hempty, hwords, fun x hx => ?_, fun x hx hxt =>
      htalk x (hword x hx (by simp [hxt])) hxt⟩
    rcases List.mem_append.1 hx with hx | hx
    · exact hnone x hx
    · rw [List.mem_singleton.1 hx]
      simp
  · obtain ⟨m, k, -, -, hasking, -⟩ := h.led hp
    exact absurd hasking (hno m)

/-- A request comes in. -/
theorem stages (h : Tidy t s a b phase) {m : Nat} {rest : List Saying}
    (hw : b.words = (.ask, m) :: rest) (hn : a.seat.standing n = some .unasked) (htie : s m n) :
    Tidy t s { a with seat := { a.seat with staged := a.seat.staged ++ [n] } }
      { b with words := rest } phase := by
  have hrest : rest.Sublist b.words := hw ▸ List.sublist_cons_self ..
  have hask : (Word.ask, m) ∈ b.words := hw ▸ List.mem_cons_self
  have hless := h.lose hrest
  refine ⟨?_, ?_, ?_, hless.others, hless.confirmed, hless.confirms, hless.level, fun hp => ?_,
    hless.led⟩
  · exact hless.mine.mono (fun _ _ ht => ht) (fun _ hm => hm) (.refl _) (fun _ _ hx _ => hx) (.refl _)
      (fun _ hn => hn) (.refl _)
  · refine ⟨?_, hless.yours.asks, fun k hk => ?_, hless.yours.publishing, hless.yours.answers,
      fun _ x hx => ?_⟩
    · have hsingle := h.yours.single
      rw [hw, List.filter_cons_of_pos rfl, List.length_cons] at hsingle
      simp only [List.length_append, List.length_singleton]
      omega
    · rcases List.mem_append.1 hk with hk | hk
      · exact hless.yours.staged k hk
      · rw [List.mem_singleton.1 hk]
        exact ⟨m, htie, h.yours.asks _ hask rfl⟩
    · have horder := h.others.order
      rw [hw] at horder
      exact ((List.pairwise_cons.1 horder).1 x hx).1 rfl
  · refine { h.own with staged := fun k hk => ?_ }
    rcases List.mem_append.1 hk with hk | hk
    · exact h.own.staged k hk
    · rw [List.mem_singleton.1 hk]
      exact hn
  · obtain ⟨-, -, -, -, -, -, hwords, -⟩ := h.leads hp
    exact absurd rfl (hwords _ hask).1

/-- A staged connection is registered: from now on this end leads. -/
theorem registers (h : Tidy t s a b phase) {rest : List Nat} (live : a.seat.live = true)
    (front : a.seat.staged = n :: rest) (free : a.seat.holder = none) :
    Tidy t s { a with
      seat := { a.seat with staged := rest, holder := some n, publishing := some n }
      last := some n } b .ahead := by
  have hmem : n ∈ a.seat.staged := front ▸ List.mem_cons_self
  have hne : a.seat.staged ≠ [] := List.ne_nil_of_mem hmem
  obtain ⟨m, htied, hm⟩ := h.yours.staged n hmem
  have hno := not_asking_of_holder live (p := a.seat) (fun m hm => by rw [free] at hm; cases hm)
  have hidle := h.mine.idle hno
  have hsingle := h.yours.single
  rw [front, List.length_cons] at hsingle
  obtain rfl : rest = [] := List.eq_nil_of_length_eq_zero (by omega)
  have hnoask (x : Saying) (hx : x ∈ b.words) : x.1.isAsk = false := by
    have := List.eq_nil_of_length_eq_zero (l := b.words.filter (·.1.isAsk)) (by omega)
    simpa using List.filter_eq_nil_iff.1 this x hx
  have hnoanswer (x : Saying) (hx : x ∈ a.words) : x.1.isAnswer = false := by
    have := List.eq_nil_of_length_eq_zero (l := a.words.filter (·.1.isAnswer)) (by omega)
    simpa using List.filter_eq_nil_iff.1 this x hx
  obtain rfl : phase = .even := by
    cases phase with
    | even => rfl
    | ahead =>
      obtain ⟨-, -, -, -, -, hempty, -⟩ := h.leads rfl
      exact absurd hempty hne
    | behind =>
      obtain ⟨k, -, -, -, hasking, -⟩ := h.led rfl
      exact absurd hasking (hno k)
  obtain ⟨hlast, htalk, -⟩ := h.level rfl
  refine ⟨.of_idle hidle, ?_, ?_, h.others, fun k hk => ⟨rfl, ?_⟩, fun k hk => ?_, fun hp => ?_,
    fun _ => ?_, fun hp => ?_⟩
  · refine ⟨?_, h.yours.asks, fun k hk => ?_, fun k hk => ?_, h.yours.answers, fun hk => ?_⟩
    · simp only [List.length_nil, Option.toList_some, List.length_singleton]
      omega
    · cases hk
    · cases hk
      exact ⟨m, htied, hm⟩
    · exact absurd rfl hk
  · refine ⟨fun k hk => .inl hk, fun k hk => ?_, fun k hk => ?_, h.own.order⟩
    · cases hk
      exact ⟨.unasked, h.own.staged n hmem, rfl⟩
    · cases hk
  · rcases hk with hk | hk
    · exact hk
    · have := hnoanswer _ hk
      cases this
  · cases (h.confirms k hk).1
  · cases hp
  · refine ⟨m, n, rfl, htied, hm, rfl, fun x hx => ⟨fun hx' => ?_, h.yours.quiet hne x hx⟩,
      fun x hx hx' => ?_, fun x hx hxt => .inr ?_⟩
    · have := hnoask x hx
      rw [hx'] at this
      cases this
    · have := hnoanswer x hx
      rw [hx'] at this
      cases this
    · have hx := htalk x hx hxt
      rcases hlast with ⟨ha, -⟩ | ⟨k, r, ha, hb, hkr⟩
      · rw [ha] at hx
        cases hx
      · rw [ha] at hx
        cases hx
        exact ⟨r, hb, hkr⟩
  · cases hp

/-- A staged connection is refused. -/
theorem turnsAway (h : Tidy t s a b phase) {rest : List Nat} (front : a.seat.staged = n :: rest) :
    Tidy t s { a with seat := { a.seat with staged := rest }, words := a.words ++ [(.no, n)] } b
      phase := by
  have hmem : n ∈ a.seat.staged := front ▸ List.mem_cons_self
  have hne : a.seat.staged ≠ [] := List.ne_nil_of_mem hmem
  have hrest : rest.Sublist a.seat.staged := front ▸ List.sublist_cons_self ..
  have hword (x : Saying) (hx : x ∈ a.words ++ [(Word.no, n)]) (hne : x.1 ≠ .no) : x ∈ a.words :=
    mem_of_mem_append hx hne
  refine ⟨?_, ?_, ?_, h.others, ?_, h.confirms, fun hp => ?_, fun hp => ?_, fun hp => ?_⟩
  · refine h.mine.mono (fun _ _ ht => ht) (fun _ hm => hm) ?_ (fun _ x hx hxt => ?_) (.refl _)
      (fun _ hn => hn) (.refl _)
    · simp [Word.isAsk]
    · exact hword x hx (by simp [hxt])
  · refine ⟨?_, h.yours.asks, fun k hk => h.yours.staged k (hrest.subset hk), h.yours.publishing,
      fun x hx hanswer => ?_, fun _ => h.yours.quiet hne⟩
    · have hsingle := h.yours.single
      rw [front, List.length_cons] at hsingle
      rw [length_answers_append _ rfl]
      dsimp only
      omega
    · rcases List.mem_append.1 hx with hx | hx
      · exact h.yours.answers x hx hanswer
      · rw [List.mem_singleton.1 hx]
        exact h.yours.staged n hmem
  · refine ⟨h.own.holder, h.own.last, fun k hk => h.own.staged k (hrest.subset hk), ?_⟩
    refine List.pairwise_append.2 ⟨h.own.order, List.pairwise_singleton .., fun x _ y hy => ?_⟩
    rw [List.mem_singleton.1 hy]
    exact ⟨fun _ => by simp, fun _ hy => by cases hy⟩
  · exact fun k hk => h.confirmed k (hk.imp_right fun hx => hword _ hx (by simp))
  · obtain ⟨hlast, htalk, htalks⟩ := h.level hp
    exact ⟨hlast, fun x hx hxt => htalk x (hword x hx (by simp [hxt])) hxt, htalks⟩
  · obtain ⟨-, -, -, -, -, hempty, -⟩ := h.leads hp
    exact absurd hempty hne
  · obtain ⟨m, k, hlast, htied, hasking, hempty, hwords, hnone, htalk⟩ := h.led hp
    refine ⟨m, k, hlast, htied, hasking, hempty, fun x hx => ?_, hnone, htalk⟩
    rcases List.mem_append.1 hx with hx | hx
    · exact hwords x hx
    · rw [List.mem_singleton.1 hx]
      simp

/-- A registered connection will not be confirmed. -/
theorem withholds (h : Tidy t s a b phase) :
    Tidy t s { a with seat := { a.seat with publishing := none } } b phase := by
  refine ⟨?_, ?_, ⟨h.own.holder, h.own.last, h.own.staged, h.own.order⟩, h.others, fun k hk => ?_,
    h.confirms, h.level, h.leads, h.led⟩
  · exact h.mine.mono (fun _ _ ht => ht) (fun _ hm => hm) (.refl _) (fun _ _ hx _ => hx) (.refl _)
      (fun _ hn => hn) (.refl _)
  · exact h.yours.mono (fun _ _ ht => ht) (fun _ hm => hm) (.refl _) (fun _ _ hx _ => hx) (.refl _)
      (fun _ hn => by cases hn) (.refl _)
  · exact h.confirmed k (.inr (hk.resolve_left (by simp)))

/-- A registered connection is confirmed. -/
theorem publishes (h : Tidy t s a b phase) (hp : a.seat.publishing = some n) :
    Tidy t s { a with
      seat := { a.seat with publishing := none }
      words := a.words ++ [(.yes, n)] } b phase := by
  obtain ⟨rfl, hlast⟩ := h.confirmed n (.inl hp)
  have hword (x : Saying) (hx : x ∈ a.words ++ [(Word.yes, n)]) (hne : x.1 ≠ .yes) : x ∈ a.words :=
    mem_of_mem_append hx hne
  have hless := h.withholds
  refine ⟨?_, ?_, ⟨h.own.holder, h.own.last, h.own.staged, ?_⟩, h.others, fun k hk => ⟨rfl, ?_⟩,
    h.confirms, fun hp => ?_, fun _ => ?_, fun hp => ?_⟩
  · refine hless.mine.mono (fun _ _ ht => ht) (fun _ hm => hm) ?_ (fun _ x hx hxt => ?_) (.refl _)
      (fun _ hn => hn) (.refl _)
    · simp [Word.isAsk]
    · exact hword x hx (by simp [hxt])
  · refine ⟨?_, h.yours.asks, h.yours.staged, hless.yours.publishing, fun x hx hanswer => ?_,
      h.yours.quiet⟩
    · have hsingle := h.yours.single
      rw [hp, Option.toList_some, List.length_singleton] at hsingle
      rw [length_answers_append _ rfl, Option.toList_none, List.length_nil]
      dsimp only
      omega
    · rcases List.mem_append.1 hx with hx | hx
      · exact h.yours.answers x hx hanswer
      · rw [List.mem_singleton.1 hx]
        exact h.yours.publishing n hp
  · refine List.pairwise_append.2 ⟨h.own.order, List.pairwise_singleton .., fun x _ y hy => ?_⟩
    rw [List.mem_singleton.1 hy]
    exact ⟨fun _ => by simp, fun _ hy => by cases hy⟩
  · rcases hk with hk | hk
    · cases hk
    · rcases List.mem_append.1 hk with hk | hk
      · exact (h.confirmed k (.inr hk)).2
      · cases List.mem_singleton.1 hk
        exact hlast
  · cases hp
  · obtain ⟨m, k, hlast, htied, hasking, hempty, hwords, hnone, htalk⟩ := h.leads rfl
    refine ⟨m, k, hlast, htied, hasking, hempty, hwords, fun x hx => ?_, fun x hx hxt =>
      htalk x (hword x hx (by simp [hxt])) hxt⟩
    rcases List.mem_append.1 hx with hx | hx
    · exact hnone x hx
    · rw [List.mem_singleton.1 hx]
      simp
  · cases hp

/-- An answer comes in: it is one to the request of the connection that holds the id. -/
theorem tied_of_answer (h : Tidy t s a b phase) {yes : Bool} {k : Nat} (live : a.seat.live = true)
    (held : a.seat.holder = some n) (hw : ((if yes then Word.yes else .no), k) ∈ b.words) :
    t n k ∧ a.seat.standing n = some .asking := by
  obtain ⟨m, htied, hm⟩ := h.mine.answers _ hw (by cases yes <;> rfl)
  obtain rfl : n = m := Option.some.inj (held.symm.trans (hm.2 live))
  exact ⟨htied, hm.1⟩

theorem answered (h : Tidy t s a b phase) {yes : Bool} {k : Nat} {rest : List Saying}
    (live : a.seat.live = true) (held : a.seat.holder = some n)
    (hw : b.words = ((if yes then Word.yes else .no), k) :: rest) :
    ∃ last phase', Tidy t s { a with
      seat := { a.seat with
        standing := Function.update a.seat.standing n (some (if yes then .accepted else .refused)) }
      last } { b with words := rest } phase' := by
  have hrest : rest.Sublist b.words := hw ▸ List.sublist_cons_self ..
  have hmem : ((if yes then Word.yes else .no), k) ∈ b.words := hw ▸ List.mem_cons_self
  obtain ⟨htied, hn⟩ := h.tied_of_answer live held hmem
  have hless := h.lose hrest
  -- This was the only request in work.
  have hidle : Half.Idle a { b with words := rest } := by
    have hsingle := h.mine.single
    rw [hw, List.filter_cons_of_pos (by cases yes <;> rfl), List.length_cons] at hsingle
    have hstaged : b.seat.staged = [] := List.eq_nil_of_length_eq_zero (by omega)
    refine ⟨fun x hx => ?_, hstaged, ?_, fun x hx => ?_⟩
    · have := List.eq_nil_of_length_eq_zero (l := a.words.filter (·.1.isAsk)) (by omega)
      simpa using List.filter_eq_nil_iff.1 this x hx
    · cases hp : b.seat.publishing with
      | none => rfl
      | some r =>
        rw [hp, Option.toList_some, List.length_singleton] at hsingle
        omega
    · have := List.eq_nil_of_length_eq_zero (l := rest.filter (·.1.isAnswer)) (by omega)
      simpa using List.filter_eq_nil_iff.1 this x hx
  have hother {m : Nat} {st : Standing} (hm : a.seat.standing m = some st) (hst : st ≠ .asking)
      (st' : Standing) : Function.update a.seat.standing n (some st') m = some st := by
    rw [Function.update_of_ne (fun hmn => ?_), hm]
    rw [hmn, hn] at hm
    exact hst (Option.some.inj hm).symm
  have hheld (m : Nat) (hm : a.seat.holder = some m) : m = n := Option.some.inj (hm.symm.trans held)
  have hyours (st : Standing) (last : Option Nat) : Half s { b with words := rest } { a with
      seat := { a.seat with standing := Function.update a.seat.standing n (some st) }, last } :=
    hless.yours.mono (fun _ _ ht => ht) (fun _ hm => hm) (.refl _) (fun _ _ hx _ => hx) (.refl _)
      (fun _ hn => hn) (.refl _)
  have hstaged (st : Standing) (m : Nat) (hm : m ∈ a.seat.staged) :
      Function.update a.seat.standing n (some st) m = some .unasked :=
    hother (h.own.staged m hm) (by simp) st
  cases yes with
  | true =>
    obtain ⟨rfl, hlast⟩ := h.confirms k (.inr hmem)
    obtain ⟨m, r, hr, htied', hasking, hempty, hwords, hnone, htalk⟩ := h.led rfl
    refine ⟨some n, .even, .of_idle hidle, hyours _ _, ?_, hless.others, fun i hi => ?_, fun i hi => ?_,
      fun _ => ?_, fun hp => (by cases hp), fun hp => (by cases hp)⟩
    · exact {
        holder := fun m hm => .inl (by rw [hheld m hm])
        last := fun m hm => ⟨.accepted, by cases hm; exact Function.update_self .., rfl⟩
        staged := hstaged _
        order := h.own.order }
    · cases (h.confirmed i hi).1
    · rcases hi with hi | hi
      · rw [hidle.2.2.1] at hi
        cases hi
      · have := hidle.2.2.2 _ hi
        cases this
    · refine ⟨.inr ⟨n, k, rfl, hlast, .inl htied⟩, fun x hx hxt => absurd hxt (hwords x hx).2,
        fun x hx hxt => ?_⟩
      have horder := h.others.order
      rw [hw] at horder
      rw [((List.pairwise_cons.1 horder).1 x hx).2 rfl hxt]
      exact hlast
  | false =>
    refine ⟨a.last, phase, .of_idle hidle, hyours _ _, ?_, hless.others, hless.confirmed,
      hless.confirms, hless.level, hless.leads, fun hp => ?_⟩
    · refine {
        holder := fun m hm => .inr (.inr (by rw [hheld m hm]; exact Function.update_self ..))
        last := fun m hm => ?_
        staged := hstaged _
        order := h.own.order }
      obtain ⟨st, hst, hset⟩ := h.own.last m hm
      exact ⟨st, hother hst (by rintro rfl; cases hset) _, hset⟩
    · obtain ⟨-, -, -, -, -, -, -, hnone, -⟩ := h.led hp
      exact absurd rfl (hnone _ hmem)

/-- A connection that may be used and holds the id is the last one, and no other waits for an answer. -/
theorem settled (h : Tidy t s a b phase) (hn : a.seat.Settled n) :
    a.last = some n ∧ ∀ m, ¬ a.seat.Asking m := by
  obtain ⟨live, held, st, hst, hset⟩ := hn
  refine ⟨?_, not_asking_of_holder live fun m hm => ?_⟩
  · rcases h.own.holder n held with hlast | hstanding | hstanding
    · exact hlast
    · rw [hst] at hstanding
      cases hstanding
      cases hset
    · rw [hst] at hstanding
      cases hstanding
      cases hset
  · obtain rfl : n = m := Option.some.inj (held.symm.trans hm)
    rw [hst]
    rintro hstanding
    cases hstanding
    cases hset

/-- The connection that holds the id talks. -/
theorem talks (h : Tidy t s a b phase) (hn : a.seat.Settled n) {before after : List Saying}
    (hw : a.words = before ++ after) :
    Tidy t s { a with words := before ++ (.talk, n) :: after } b phase := by
  obtain ⟨hlast, hno⟩ := h.settled hn
  obtain ⟨hasks, hstaged, hpublishing, hanswers⟩ := h.mine.idle hno
  have hword (x : Saying) (hx : x ∈ before ++ (Word.talk, n) :: after) :
      x ∈ a.words ∨ x = (Word.talk, n) := by
    rw [hw, List.mem_append]
    rcases List.mem_append.1 hx with hx | hx
    · exact .inl (.inl hx)
    · rcases List.mem_cons.1 hx with hx | hx
      · exact .inr hx
      · exact .inl (.inr hx)
  have htalks (x : Saying) (hx : x ∈ before ++ (Word.talk, n) :: after) (hxt : x.1 ≠ .talk) :
      x ∈ a.words := (hword x hx).resolve_right (by rintro rfl; exact hxt rfl)
  refine ⟨.of_idle ⟨fun x hx => ?_, hstaged, hpublishing, hanswers⟩, ?_, ?_, h.others, ?_, h.confirms,
    fun hp => ?_, fun hp => ?_, fun hp => ?_⟩
  · rcases hword x hx with hx | rfl
    · exact hasks x hx
    · rfl
  · have hsame : (before ++ (Word.talk, n) :: after).filter (·.1.isAnswer) =
        a.words.filter (·.1.isAnswer) := by
      rw [hw, List.filter_append, List.filter_append, List.filter_cons_of_neg (by simp [Word.isAnswer])]
    exact h.yours.mono (fun _ _ ht => ht) (fun _ hm => hm) (.refl _) (fun _ _ hx _ => hx) (.refl _)
      (fun _ hn => hn) (hsame ▸ .refl _)
  · refine ⟨h.own.holder, h.own.last, h.own.staged, ?_⟩
    have horder := h.own.order
    rw [hw, List.pairwise_append] at horder
    refine List.pairwise_append.2 ⟨horder.1, List.pairwise_cons.2 ⟨fun y _ => ?_, horder.2.1⟩,
      fun x hx y hy => ?_⟩
    · exact ⟨fun hx => (by cases hx), fun hx => (by cases hx)⟩
    · rcases List.mem_cons.1 hy with rfl | hy
      · have hx : x ∈ a.words := hw ▸ List.mem_append_left _ hx
        refine ⟨fun hask => ?_, fun hyes _ => ?_⟩
        · have := hasks x hx
          rw [hask] at this
          cases this
        · have hmem : (Word.yes, x.2) ∈ a.words := hyes ▸ hx
          have := (h.confirmed x.2 (.inr hmem)).2
          exact Option.some.inj (hlast.symm.trans this)
      · exact horder.2.2 x hx y hy
  · exact fun k hk => h.confirmed k (hk.imp_right fun hx => htalks _ hx (by simp))
  · obtain ⟨hboth, htalk, htalk'⟩ := h.level hp
    refine ⟨hboth, fun x hx hxt => ?_, htalk'⟩
    rcases hword x hx with hx | rfl
    · exact htalk x hx hxt
    · exact hlast
  · obtain ⟨m, k, hk, htied, hasking, hempty, hwords, hnone, htalk⟩ := h.leads hp
    refine ⟨m, k, hk, htied, hasking, hempty, hwords, fun x hx => ?_, fun x hx hxt => ?_⟩
    · rcases hword x hx with hx | rfl
      · exact hnone x hx
      · simp
    · rcases hword x hx with hx | rfl
      · exact htalk x hx hxt
      · exact .inl (Option.some.inj (hlast.symm.trans hk))
  · obtain ⟨m, k, -, -, hasking, -⟩ := h.led hp
    exact absurd hasking (hno m)

/-- The holder gives up the id, and does not wait for an answer. -/
theorem frees (h : Tidy t s a b phase) (hno : ∀ m, ¬ a.seat.Asking m) :
    Tidy t s { a with seat := { a.seat with holder := none } } b phase := by
  refine ⟨.of_idle (h.mine.idle hno), ?_, ?_, h.others, h.confirmed, h.confirms, h.level, h.leads,
    fun hp => ?_⟩
  · exact h.yours.mono (fun _ _ ht => ht) (fun _ hm => hm) (.refl _) (fun _ _ hx _ => hx) (.refl _)
      (fun _ hn => hn) (.refl _)
  · exact ⟨fun _ hk => (by cases hk), h.own.last, h.own.staged, h.own.order⟩
  · obtain ⟨m, k, -, -, hasking, -⟩ := h.led hp
    exact absurd hasking (hno m)

/-- The session ends. -/
theorem falls (h : Tidy t s a b phase) :
    Tidy t s { a with seat := { a.seat with live := false, holder := none, staged := [] } } b phase := by
  have hasking (m : Nat) (hm : a.seat.Asking m) :
      Seat.Asking m { a.seat with live := false, holder := none, staged := [] } :=
    ⟨hm.1, fun hlive => by cases hlive⟩
  refine ⟨?_, ?_, ?_, h.others, h.confirmed, h.confirms, h.level, fun hp => ?_, fun hp => ?_⟩
  · exact h.mine.mono (fun _ _ ht => ht) hasking (.refl _) (fun _ _ hx _ => hx) (.refl _)
      (fun _ hn => hn) (.refl _)
  · exact h.yours.mono (fun _ _ ht => ht) (fun _ hm => hm) (.refl _) (fun _ _ hx _ => hx)
      (List.nil_sublist _) (fun _ hn => hn) (.refl _)
  · exact ⟨fun _ hk => (by cases hk), h.own.last, fun _ hk => (by cases hk), h.own.order⟩
  · obtain ⟨m, k, hk, htied, hm, -, hled⟩ := h.leads hp
    exact ⟨m, k, hk, htied, hm, rfl, hled⟩
  · obtain ⟨m, k, hk, htied, hm, hled⟩ := h.led hp
    exact ⟨m, k, hk, htied, hasking m hm, hled⟩

/-- Whatever the one end does, both fit each other afterwards. -/
theorem act (h : Tidy t s a b phase) {p : Seat} {said heard : Option Saying} {words rest : List Saying}
    (hact : Act s' a.seat p said heard) (hsaid : Says said a.words words)
    (hheard : b.words = heard.toList ++ rest) (ht : ∀ m n, t m n → t' m n)
    (hs : ∀ m n, s m n → s' m n) :
    ∃ last phase', Tidy t' s' { seat := p, words, last } { b with words := rest } phase' := by
  obtain ⟨q, sayings, last⟩ := a
  have h := h.tie ht hs
  have hrest : rest.Sublist b.words := hheard ▸ List.sublist_append_right ..
  -- Without a new word, less is under way at most.
  have hquiet (hnone : said = none) : ∃ phase', Tidy t' s' { seat := q, words, last } b phase' := by
    subst hnone
    cases hsaid with
    | silent hw => exact ⟨_, (h.symm.lose hw).symm⟩
  have hend {x : Saying} (hx : said = some x) (hne : x.1 ≠ .talk) : words = sayings ++ [x] := by
    subst hx
    cases hsaid with
    | @utters _ before after hafter =>
      obtain rfl := hafter hne
      exact congrArg (· ++ [x]) (List.append_nil before).symm
  cases hact with
  | idle | miss =>
    obtain ⟨phase', h⟩ := hquiet rfl
    exact ⟨last, phase', h.lose hrest⟩
  | ask live free fresh =>
    cases hheard
    rw [hend rfl (by simp)]
    exact ⟨last, phase, (h.fresh fresh .asking).asks live free (Function.update_self ..)⟩
  | @stage m n fresh tie =>
    obtain ⟨phase', h⟩ := hquiet rfl
    exact ⟨last, phase', (h.fresh fresh .unasked).stages hheard (Function.update_self ..) tie⟩
  | late fresh =>
    obtain ⟨phase', h⟩ := hquiet rfl
    exact ⟨last, phase', (h.fresh fresh .unasked).lose hrest⟩
  | register live front free =>
    cases hheard
    obtain ⟨phase', h⟩ := hquiet rfl
    exact ⟨_, .ahead, h.registers live front free⟩
  | turnAway front =>
    cases hheard
    rw [hend rfl (by simp)]
    exact ⟨last, phase, h.turnsAway front⟩
  | publish hp =>
    cases hheard
    rw [hend rfl (by simp)]
    exact ⟨last, phase, h.publishes hp⟩
  | withhold =>
    cases hheard
    obtain ⟨phase', h⟩ := hquiet rfl
    exact ⟨last, phase', h.withholds⟩
  | @answer n k yes live held =>
    obtain ⟨phase', h⟩ := hquiet rfl
    have hmem : ((if yes then Word.yes else .no), k) ∈ b.words := hheard ▸ List.mem_cons_self
    have hn := (h.tied_of_answer live held hmem).2
    have hanswer : (q.standing n).map (Standing.answer yes) =
        some (if yes then .accepted else .refused) := by
      rw [show q.standing n = some .asking from hn]
      rfl
    rw [hanswer]
    exact h.answered live held hheard
  | talk settled =>
    cases hheard
    cases hsaid with
    | utters => exact ⟨last, phase, h.talks settled rfl⟩
  | @leave n said heard settled hword hhear =>
    have hfree {words : List Saying} {phase' : Phase}
        (h : Tidy t' s' { seat := q, words, last } b phase') :
        Tidy t' s' { seat := { q with holder := none }, words, last } { b with words := rest } phase' :=
      (h.frees (h.settled settled).2).lose hrest
    rcases hword with rfl | rfl
    · obtain ⟨phase', h⟩ := hquiet rfl
      exact ⟨last, phase', hfree h⟩
    · cases hsaid with
      | utters => exact ⟨last, phase, hfree (h.talks settled rfl)⟩
  | giveUp live held refused =>
    cases hheard
    obtain ⟨phase', h⟩ := hquiet rfl
    refine ⟨last, phase', h.frees (not_asking_of_holder live fun m hm => ?_)⟩
    rw [← Option.some.inj (held.symm.trans hm)]
    exact fun hasking => by cases refused.symm.trans hasking
  | fall =>
    cases hheard
    obtain ⟨phase', h⟩ := hquiet rfl
    exact ⟨last, phase', h.falls⟩

/-- An answer that reaches the holder of the id is one to its request, and talk that reaches a connection
which the peer asked for or accepted is that of its counterpart. -/
theorem meets (h : Tidy t s a b phase) {x : Saying} (live : a.seat.live = true)
    (held : a.seat.holder = some n) (hx : x ∈ b.words) :
    (x.1.isAnswer = true → t n x.2) ∧
      (x.1 = .talk → Tied t s n x.2 ∨
        a.seat.standing n = some .asking ∨ a.seat.standing n = some .refused) := by
  refine ⟨fun hanswer => ?_, fun htalk => ?_⟩
  · obtain ⟨m, htied, hm⟩ := h.mine.answers x hx hanswer
    rwa [Option.some.inj (held.symm.trans (hm.2 live))]
  · refine (h.own.holder n held).imp_left fun hlast => ?_
    obtain ⟨st, hst, hset⟩ := h.own.last n hlast
    cases phase with
    | even =>
      obtain ⟨hboth, -, htalks⟩ := h.level rfl
      rcases hboth with ⟨ha, -⟩ | ⟨m, r, ha, hb, htied⟩
      · rw [hlast] at ha
        cases ha
      · rw [hlast] at ha
        cases ha
        rwa [Option.some.inj (hb.symm.trans (htalks x hx htalk))] at htied
    | ahead =>
      obtain ⟨-, -, -, -, -, -, hwords, -⟩ := h.leads rfl
      exact absurd htalk (hwords x hx).2
    | behind =>
      obtain ⟨m, r, -, -, hasking, -, -, -, htalks⟩ := h.led rfl
      rcases htalks x hx htalk with -  | ⟨r, hr, htied⟩
      · -- The connection that waits for its confirmation would hold the id.
        rw [Option.some.inj (held.symm.trans (hasking.2 live)), hasking.1] at hst
        cases hst
        cases hset
      · rw [Option.some.inj (hlast.symm.trans hr)]
        exact htied.symm

/-- Two ends at which nothing has happened yet. -/
theorem start (t s : Nat → Nat → Prop) (p q : Seat) (hp : p.holder = none) (hq : q.holder = none)
    (hps : p.staged = []) (hqs : q.staged = []) (hpp : p.publishing = none) (hqp : q.publishing = none) :
    Tidy t s ⟨p, [], none⟩ ⟨q, [], none⟩ .even where
  mine := .of_idle ⟨fun _ hx => (by cases hx), hqs, hqp, fun _ hx => by cases hx⟩
  yours := .of_idle ⟨fun _ hx => (by cases hx), hps, hpp, fun _ hx => by cases hx⟩
  own := {
    holder := fun n hn => by rw [show _ = _ from hp] at hn; cases hn
    last := fun n hn => by cases hn
    staged := fun n hn => by rw [show _ = _ from hps] at hn; cases hn
    order := .nil }
  others := {
    holder := fun n hn => by rw [show _ = _ from hq] at hn; cases hn
    last := fun n hn => by cases hn
    staged := fun n hn => by rw [show _ = _ from hqs] at hn; cases hn
    order := .nil }
  confirmed n hn := by
    rcases hn with hn | hn
    · rw [show _ = _ from hpp] at hn; cases hn
    · cases hn
  confirms n hn := by
    rcases hn with hn | hn
    · rw [show _ = _ from hqp] at hn; cases hn
    · cases hn
  level _ := ⟨.inl ⟨rfl, rfl⟩, fun _ hx => (by cases hx), fun _ hx => by cases hx⟩
  leads hp := by cases hp
  led hp := by cases hp

end Tidy

end StreamMux
