import Mathlib.Data.List.Nodup
import StreamMux.Buffer.Lending
import StreamMux.Proofs.Holding

/-! A pool and the buffers it has lent, whatever the holders do to them and in whatever order they give them
back. As many buffers are out as loans have not ended; the idle ones are empty, large enough and no more than
the pool keeps; and no buffer is idle and lent at once, or lent twice. -/

namespace StreamMux

/-! ### What the pool does -/

namespace Buffer

variable {b : Buffer}

@[simp] theorem serial_fill (bytes : Bytes) : (b.fill bytes).serial = b.serial := by
  unfold fill grow
  split <;> rfl

@[simp] theorem serial_extend (more : Bytes) : (b.extend more).serial = b.serial := serial_fill _

@[simp] theorem serial_resize (length : Nat) (filler : UInt8) : (b.resize length filler).serial = b.serial :=
  serial_fill _

@[simp] theorem serial_truncate (length : Nat) : (b.truncate length).serial = b.serial := rfl

@[simp] theorem serial_splitOff (count : Nat) : (b.splitOff count).serial = b.serial := rfl

end Buffer

namespace Pool

variable {p : Pool}

/-- What is taken is the idle buffer in front, or a new one. -/
theorem acquire_cases (p : Pool) :
    (∃ b rest, p.idle = b :: rest ∧
      p.acquire = ({ p with idle := rest, outstanding := p.outstanding + 1 }, b)) ∨
    (p.idle = [] ∧
      p.acquire = ({ p with outstanding := p.outstanding + 1, fresh := p.fresh + 1 },
        { serial := p.fresh, capacity := p.bufferSize })) := by
  cases hidle : p.idle with
  | nil => exact .inr ⟨rfl, by simp [acquire, hidle]⟩
  | cons b rest => exact .inl ⟨b, rest, rfl, by simp [acquire, hidle]⟩

/-- A buffer that is given back is kept if it is large enough and there is room. -/
theorem release_eq (b : Buffer) (p : Pool) : p.release b =
    { p with
      outstanding := p.outstanding - 1
      idle := if p.bufferSize ≤ b.capacity ∧ p.idle.length < p.maxIdle then { b with bytes := [] } :: p.idle
        else p.idle } := by
  unfold release
  dsimp only
  split
  · rename_i hsmall
    rw [if_neg fun hkept => absurd hkept.1 (Nat.not_le.2 hsmall)]
  · rename_i hlarge
    split
    · rename_i hroom
      rw [if_pos ⟨Nat.not_lt.1 hlarge, hroom⟩]
    · rename_i hfull
      rw [if_neg fun hkept => hfull hkept.2]

/-- A buffer is changed in place, or a new one is put in its place. -/
theorem edit_cases (b : Buffer) (e : Edit) (p : Pool) :
    (∃ c, p.edit b e = (p, c) ∧ c.serial = b.serial) ∨
    ∃ c, p.edit b e = ({ p with fresh := p.fresh + 1 }, c) ∧ c.serial = p.fresh := by
  cases e with
  | extend | resize | truncate | splitOff => exact .inl ⟨_, rfl, by simp⟩
  | replace bytes => exact .inr ⟨_, rfl, rfl⟩

/-- The idle buffers are as a taker expects them, and no more than are to be kept. -/
structure Ready (p : Pool) : Prop where
  bounded : p.idle.length ≤ p.maxIdle
  tidy : p.Tidy
  roomy : ∀ b ∈ p.idle, p.bufferSize ≤ b.capacity

theorem Ready.acquire (h : p.Ready) :
    p.acquire.1.Ready ∧ p.acquire.2.bytes = [] ∧ p.bufferSize ≤ p.acquire.2.capacity := by
  obtain ⟨htidy, hempty⟩ := h.tidy.acquire
  rcases acquire_cases p with ⟨b, rest, hidle, hacquire⟩ | ⟨hidle, hacquire⟩ <;> rw [hacquire] at htidy hempty ⊢
  · have hbounded := h.bounded
    rw [hidle] at hbounded
    exact ⟨⟨Nat.le_of_succ_le hbounded, htidy, fun c hc => h.roomy c (hidle ▸ List.mem_cons_of_mem _ hc)⟩,
      hempty, h.roomy b (hidle ▸ List.mem_cons_self)⟩
  · exact ⟨⟨h.bounded, htidy, h.roomy⟩, hempty, Nat.le_refl _⟩

theorem Ready.release (h : p.Ready) (b : Buffer) : (p.release b).Ready := by
  have htidy := h.tidy.release b
  rw [release_eq] at htidy ⊢
  refine ⟨?_, htidy, fun c hc => ?_⟩
  · show (ite _ _ _ : List Buffer).length ≤ p.maxIdle
    split
    · rename_i hkept
      exact hkept.2
    · exact h.bounded
  · have hc : c ∈ (ite _ _ _ : List Buffer) := hc
    split at hc
    · rename_i hkept
      rcases List.mem_cons.1 hc with rfl | hc
      · exact hkept.1
      · exact h.roomy c hc
    · exact h.roomy c hc

end Pool

/-! ### Serial numbers -/

/-- No two serial numbers are the same, and the next new one is none of them. -/
structure Distinct (serials : List Nat) (fresh : Nat) : Prop where
  nodup : serials.Nodup
  old : ∀ n ∈ serials, n < fresh

namespace Distinct

variable {serials fewer : List Nat} {fresh : Nat}

theorem subperm (h : Distinct serials fresh) (hsub : fewer.Subperm serials) : Distinct fewer fresh := by
  obtain ⟨some, hperm, hsublist⟩ := hsub
  exact ⟨hperm.nodup_iff.1 (hsublist.nodup h.nodup), fun n hn => h.old n (hsublist.subset (hperm.mem_iff.2 hn))⟩

theorem renew (h : Distinct serials fresh) : Distinct (fresh :: serials) (fresh + 1) := by
  refine ⟨List.nodup_cons.2 ⟨fun hmem => Nat.lt_irrefl _ (h.old _ hmem), h.nodup⟩, fun n hn => ?_⟩
  rcases List.mem_cons.1 hn with rfl | hn
  · exact Nat.lt_succ_self _
  · exact Nat.lt_succ_of_lt (h.old n hn)

end Distinct

namespace Lending

/-- The buffers that are lent. -/
def held (l : Lending) : List Buffer := l.loans.filterMap id

/-- The holder of a buffer makes something else of it in place. -/
def alter (i capacity : Nat) (bytes : Bytes) (l : Lending) : Lending :=
  match l.buffer? i with
  | none => l
  | some b => { l with loans := l.loans.set i (some { b with capacity, bytes }) }

/-- Two holders exchange what they hold. -/
def exchange (i j : Nat) (l : Lending) : Lending :=
  match l.buffer? i, l.buffer? j with
  | some b, some c => { l with loans := (l.loans.set i (some c)).set j (some b) }
  | _, _ => l

/-- What the users of a pool do. -/
inductive Act
  | acquire
  | copy (bytes : Bytes)
  | edit (i : Nat) (e : Edit)
  | alter (i capacity : Nat) (bytes : Bytes)
  | exchange (i j : Nat)
  | release (i : Nat)

def act (l : Lending) : Act → Lending
  | .acquire => l.acquire.1
  | .copy bytes => (l.copy bytes).1
  | .edit i e => (l.edit i e).1
  | .alter i capacity bytes => l.alter i capacity bytes
  | .exchange i j => l.exchange i j
  | .release i => l.release i

def after (acts : List Act) (l : Lending) : Lending := acts.foldl act l

/-- A pool that has lent nothing. -/
def opened (bufferSize maxIdle : Nat) : Lending := { pool := { bufferSize, maxIdle } }

variable {l : Lending} {i j : Nat} {b c : Buffer}

/-! ### The loans -/

theorem buffer?_eq_some_iff : l.buffer? i = some b ↔ l.loans[i]? = some (some b) := by
  simp [buffer?, Option.join_eq_some_iff]

/-- What is held beside the buffer of a loan. -/
def others (i : Nat) (l : Lending) : List Buffer := (l.loans.set i none).filterMap id

theorem perm_set {loans : List (Option Buffer)} (h : i < loans.length) (b : Buffer) :
    ((loans.set i (some b)).filterMap id).Perm (b :: (loans.set i none).filterMap id) := by
  induction loans generalizing i with
  | nil => cases h
  | cons loan loans ih =>
    cases i with
    | zero => simp
    | succ i =>
      have hrest := ih (Nat.lt_of_succ_lt_succ h)
      cases loan with
      | none => simpa using hrest
      | some c => simpa using (hrest.cons c).trans (.swap b c _)

theorem perm_held (h : l.buffer? i = some b) : l.held.Perm (b :: l.others i) := by
  obtain ⟨hlt, hget⟩ := List.getElem?_eq_some_iff.1 (buffer?_eq_some_iff.1 h)
  have hperm := perm_set hlt b
  rwa [← hget, List.set_getElem_self] at hperm

theorem perm_held_set (h : l.buffer? i = some b) (c : Buffer) :
    ((l.loans.set i (some c)).filterMap id).Perm (c :: l.others i) :=
  perm_set (List.getElem?_eq_some_iff.1 (buffer?_eq_some_iff.1 h)).1 c

/-- An exchange changes only who holds what. -/
theorem perm_held_exchange (i j : Nat) (l : Lending) : (l.exchange i j).held.Perm l.held := by
  unfold exchange
  split
  · rename_i b c hb hc
    obtain ⟨hi, hbi⟩ := List.getElem?_eq_some_iff.1 (buffer?_eq_some_iff.1 hb)
    obtain ⟨hj, hcj⟩ := List.getElem?_eq_some_iff.1 (buffer?_eq_some_iff.1 hc)
    rw [← hbi, ← hcj]
    exact (List.set_set_perm hi hj).filterMap id
  · exact .refl _

/-! ### The account -/

/-- The numbers of the buffers that are idle or lent. -/
def serials (l : Lending) : List Nat := (l.pool.idle ++ l.held).map Buffer.serial

/-- The account is right, and the pool is ready for the next taker. -/
structure Sound (bufferSize maxIdle : Nat) (l : Lending) : Prop where
  size : l.pool.bufferSize = bufferSize
  limit : l.pool.maxIdle = maxIdle
  ready : l.pool.Ready
  counted : l.pool.outstanding = l.held.length
  distinct : Distinct l.serials l.pool.fresh

variable {bufferSize maxIdle : Nat}

theorem sound_opened (bufferSize maxIdle : Nat) : (opened bufferSize maxIdle).Sound bufferSize maxIdle where
  size := rfl
  limit := rfl
  ready := ⟨Nat.zero_le _, Pool.tidy_new bufferSize maxIdle, fun b hb => by cases hb⟩
  counted := rfl
  distinct := ⟨List.nodup_nil, fun n hn => by cases hn⟩

/-- A buffer is taken and lent, with whatever its taker put into it. -/
theorem Sound.lend (h : l.Sound bufferSize maxIdle) (hserial : c.serial = l.pool.acquire.2.serial) :
    Sound bufferSize maxIdle { pool := l.pool.acquire.1, loans := l.loans ++ [some c] } := by
  have hheld : (l.loans ++ [some c]).filterMap id = l.held ++ [c] := by simp [held]
  have hready := h.ready.acquire.1
  have hdistinct := h.distinct
  unfold serials at hdistinct
  rcases Pool.acquire_cases l.pool with ⟨b, rest, hidle, hacquire⟩ | ⟨hidle, hacquire⟩ <;>
    rw [hacquire] at hserial hready ⊢ <;> rw [hidle] at hdistinct
  · refine ⟨h.size, h.limit, hready, by simp [held, h.counted], hdistinct.subperm (List.Perm.subperm ?_)⟩
    rw [serials, held, hheld, ← List.append_assoc, List.map_append, List.map_singleton, hserial]
    exact List.perm_append_singleton ..
  · refine ⟨h.size, h.limit, hready, by simp [held, h.counted],
      hdistinct.renew.subperm (List.Perm.subperm ?_)⟩
    rw [serials, held, hheld, hidle, List.nil_append, List.nil_append, List.map_append, List.map_singleton, hserial]
    exact List.perm_append_singleton ..

theorem subperm_others (h : l.buffer? i = some b) :
    ((l.pool.idle ++ l.others i).map Buffer.serial).Subperm l.serials := by
  have hsublist : (l.pool.idle ++ l.others i).Sublist (l.pool.idle ++ b :: l.others i) :=
    (List.sublist_cons_self b _).append_left _
  have hperm : l.serials.Perm ((l.pool.idle ++ b :: l.others i).map Buffer.serial) :=
    ((perm_held h).append_left _).map _
  exact (hsublist.map _).subperm.trans hperm.symm.subperm

/-- The buffer of a loan becomes another one with the same number. -/
theorem Sound.rework (h : l.Sound bufferSize maxIdle) (hb : l.buffer? i = some b) (hserial : c.serial = b.serial) :
    Sound bufferSize maxIdle { l with loans := l.loans.set i (some c) } := by
  have hbefore := perm_held hb
  have hafter := perm_held_set hb c
  refine ⟨h.size, h.limit, h.ready, h.counted.trans (hbefore.length_eq.trans hafter.length_eq.symm),
    h.distinct.subperm (List.Perm.subperm ?_)⟩
  refine ((hafter.append_left l.pool.idle).map _).trans (.trans ?_ ((hbefore.append_left l.pool.idle).map _).symm)
  simp [hserial]

/-- A new buffer is put in the place of the one that was lent. -/
theorem Sound.renew (h : l.Sound bufferSize maxIdle) (hb : l.buffer? i = some b)
    (hserial : c.serial = l.pool.fresh) : Sound bufferSize maxIdle
      { pool := { l.pool with fresh := l.pool.fresh + 1 }, loans := l.loans.set i (some c) } := by
  have hbefore := perm_held hb
  have hafter := perm_held_set hb c
  refine ⟨h.size, h.limit, ⟨h.ready.bounded, h.ready.tidy, h.ready.roomy⟩,
    h.counted.trans (hbefore.length_eq.trans hafter.length_eq.symm), h.distinct.renew.subperm ?_⟩
  have hperm : (serials { pool := { l.pool with fresh := l.pool.fresh + 1 }, loans := l.loans.set i (some c) }).Perm
      (l.pool.fresh :: (l.pool.idle ++ l.others i).map Buffer.serial) := by
    rw [← hserial]
    exact ((hafter.append_left l.pool.idle).trans List.perm_middle).map _
  exact hperm.subperm.trans ((List.subperm_cons _).2 (subperm_others hb))

theorem Sound.edit (h : l.Sound bufferSize maxIdle) (i : Nat) (e : Edit) :
    (l.edit i e).1.Sound bufferSize maxIdle := by
  unfold Lending.edit
  split
  · exact h
  · rename_i b hb
    rcases Pool.edit_cases b e l.pool with ⟨c, hedit, hserial⟩ | ⟨c, hedit, hserial⟩
    · simpa only [hedit] using h.rework hb hserial
    · simpa only [hedit] using h.renew hb hserial

theorem Sound.alter (h : l.Sound bufferSize maxIdle) (i capacity : Nat) (bytes : Bytes) :
    (l.alter i capacity bytes).Sound bufferSize maxIdle := by
  unfold Lending.alter
  split
  · exact h
  · rename_i b hb
    exact h.rework hb rfl

theorem Sound.exchange (h : l.Sound bufferSize maxIdle) (i j : Nat) :
    (l.exchange i j).Sound bufferSize maxIdle := by
  have hperm := perm_held_exchange i j l
  have hpool : (l.exchange i j).pool = l.pool := by
    unfold Lending.exchange
    split <;> rfl
  refine ⟨by rw [hpool, h.size], by rw [hpool, h.limit], by rw [hpool]; exact h.ready,
    by rw [hpool, h.counted, hperm.length_eq], ?_⟩
  rw [hpool]
  refine h.distinct.subperm (List.Perm.subperm ?_)
  rw [serials, hpool]
  exact (hperm.append_left _).map _

/-- The end of a loan, and whether the buffer is idle then. -/
theorem release_of_held (h : l.Sound bufferSize maxIdle) (hb : l.buffer? i = some b) :
    (l.release i).pool.outstanding + 1 = l.pool.outstanding ∧ (l.release i).held = l.others i ∧
    (l.release i).pool.idle =
      if bufferSize ≤ b.capacity ∧ l.pool.idle.length < maxIdle then { b with bytes := [] } :: l.pool.idle
      else l.pool.idle := by
  have hcounted := h.counted
  rw [(perm_held hb).length_eq, List.length_cons] at hcounted
  have hrelease : l.release i = { pool := l.pool.release b, loans := l.loans.set i none } := by
    simp [Lending.release, hb]
  rw [hrelease, Pool.release_eq, h.size, h.limit]
  refine ⟨?_, rfl, rfl⟩
  show l.pool.outstanding - 1 + 1 = l.pool.outstanding
  omega

theorem Sound.release (h : l.Sound bufferSize maxIdle) (i : Nat) : (l.release i).Sound bufferSize maxIdle := by
  cases hb : l.buffer? i with
  | none => simpa [Lending.release, hb] using h
  | some b =>
    obtain ⟨hout, hheld, hidle⟩ := release_of_held h hb
    have hpool : (l.release i).pool = l.pool.release b := by simp [Lending.release, hb]
    have hcounted := h.counted
    rw [(perm_held hb).length_eq, List.length_cons] at hcounted
    have hready := h.ready.release b
    refine ⟨?_, ?_, hpool ▸ hready, by rw [hheld]; omega, ?_⟩
    · rw [hpool, Pool.release_eq, h.size]
    · rw [hpool, Pool.release_eq, h.limit]
    · have hfresh : (l.release i).pool.fresh = l.pool.fresh := by rw [hpool, Pool.release_eq]
      rw [hfresh]
      refine h.distinct.subperm ?_
      rw [serials, hidle, hheld]
      split
      · have hmoved : (b :: (l.pool.idle ++ l.others i)).Perm (l.pool.idle ++ l.held) :=
          List.perm_middle.symm.trans ((perm_held hb).symm.append_left _)
        exact (hmoved.map Buffer.serial).subperm
      · exact subperm_others hb

theorem Sound.act (h : l.Sound bufferSize maxIdle) (a : Act) : (l.act a).Sound bufferSize maxIdle := by
  cases a with
  | acquire => exact h.lend rfl
  | copy bytes => exact h.lend (Buffer.serial_extend bytes)
  | edit i e => exact h.edit i e
  | alter i capacity bytes => exact h.alter i capacity bytes
  | exchange i j => exact h.exchange i j
  | release i => exact h.release i

theorem Sound.after (h : l.Sound bufferSize maxIdle) (acts : List Act) :
    (l.after acts).Sound bufferSize maxIdle := by
  induction acts generalizing l with
  | nil => exact h
  | cons a acts ih => exact ih (h.act a)

/-- A buffer whose loan ends is idle then exactly if it is large enough and there is room. -/
theorem serial_mem_idle_release (h : l.Sound bufferSize maxIdle) (hb : l.buffer? i = some b) :
    b.serial ∈ (l.release i).pool.idle.map Buffer.serial ↔
      bufferSize ≤ b.capacity ∧ l.pool.idle.length < maxIdle := by
  have hlent : b.serial ∉ l.pool.idle.map Buffer.serial := by
    have hnodup := h.distinct.nodup
    rw [serials, List.map_append] at hnodup
    have hheld : b.serial ∈ l.held.map Buffer.serial :=
      List.mem_map_of_mem ((perm_held hb).mem_iff.2 List.mem_cons_self)
    exact fun hidle => List.disjoint_of_nodup_append hnodup hidle hheld
  rw [(release_of_held h hb).2.2]
  split
  · rename_i hkept
    exact ⟨fun _ => hkept, fun _ => List.mem_cons_self⟩
  · rename_i hdropped
    exact ⟨fun hidle => absurd hidle hlent, fun hkept => absurd hkept hdropped⟩

/-- Whatever the users of a pool do and in whatever order, as many buffers are out as loans have not ended,
and no more are idle than the pool keeps. The idle ones are empty and have the size of the pool, so what is
taken next is that too, and a copy holds its bytes and nothing else; what is taken is held then. No buffer is
idle and held, or held twice. When a loan ends one buffer fewer is out, the other loans go on, and the buffer
becomes idle, emptied, exactly if it has the size of the pool and there is room. -/
theorem loans_are_accounted {acts : List Act} (hl : (opened bufferSize maxIdle).after acts = l) :
    l.pool.outstanding = l.held.length ∧ l.pool.idle.length ≤ maxIdle ∧
    (∀ b ∈ l.pool.idle, b.bytes = [] ∧ bufferSize ≤ b.capacity) ∧
    (l.acquire.2.bytes = [] ∧ bufferSize ≤ l.acquire.2.capacity ∧ l.acquire.1.held = l.held ++ [l.acquire.2]) ∧
    (∀ bytes, (l.copy bytes).2.bytes = bytes ∧ (l.copy bytes).1.held = l.held ++ [(l.copy bytes).2]) ∧
    ((l.pool.idle ++ l.held).map Buffer.serial).Nodup ∧
    ∀ i b, l.buffer? i = some b →
      (l.release i).pool.outstanding + 1 = l.pool.outstanding ∧
      l.held.Perm (b :: (l.release i).held) ∧
      (l.release i).pool.idle = (if bufferSize ≤ b.capacity ∧ l.pool.idle.length < maxIdle
        then { b with bytes := [] } :: l.pool.idle else l.pool.idle) ∧
      (b.serial ∈ (l.release i).pool.idle.map Buffer.serial ↔
        bufferSize ≤ b.capacity ∧ l.pool.idle.length < maxIdle) := by
  have h : l.Sound bufferSize maxIdle := hl ▸ (sound_opened bufferSize maxIdle).after acts
  obtain ⟨-, hempty, hroomy⟩ := h.ready.acquire
  rw [h.size] at hroomy
  refine ⟨h.counted, h.limit ▸ h.ready.bounded, fun b hb => ⟨h.ready.tidy b hb, h.size ▸ h.ready.roomy b hb⟩,
    ⟨hempty, hroomy, by simp [held, Lending.acquire]⟩,
    fun bytes => ⟨(h.ready.tidy.copy bytes).2, by simp [held, Lending.copy]⟩,
    h.distinct.nodup, fun i b hb => ?_⟩
  obtain ⟨hout, hheld, hidle⟩ := release_of_held h hb
  exact ⟨hout, hheld ▸ perm_held hb, hidle, serial_mem_idle_release h hb⟩

/-- Two buffers are taken; one grows, the two change hands and the one that did not grow loses its front. -/
def exchangedLoans : List Act :=
  [.acquire, .copy [1, 2, 3], .edit 0 (.extend [9, 9, 9, 9, 9]), .exchange 0 1, .edit 0 (.splitOff 2), .release 1]

/-- The grown buffer is idle and is taken next, empty; the one that was cut is too small to be kept. -/
theorem exchangedLoans_end :
    ((opened 4 2).after exchangedLoans).acquire.2 = { serial := 0, capacity := 8 } ∧
    ((opened 4 2).after exchangedLoans).acquire.2.bytes = [] ∧
    ¬ (1 ∈ (((opened 4 2).after exchangedLoans).release 0).pool.idle.map Buffer.serial) := by
  obtain ⟨-, -, -, hacquire, -, -, hrelease⟩ :=
    loans_are_accounted (l := (opened 4 2).after exchangedLoans) rfl
  have hcut : ((opened 4 2).after exchangedLoans).buffer? 0 = some { serial := 1, capacity := 2, bytes := [3] } := by
    decide
  refine ⟨by decide, hacquire.1, fun hidle => ?_⟩
  exact absurd ((hrelease 0 _ hcut).2.2.2.1 hidle) (by decide)

end Lending

end StreamMux
