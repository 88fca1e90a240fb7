import Mathlib.Data.List.Nodup
import StreamMux.Proofs.Drawing

/-! The order in which ids are drawn. From any counter that is not negative the ids come in a round, upward to
the largest one and then from 1 on, in which each stands once. A draw gives the first id of the round that is
not in use, and the next round begins behind it. -/

namespace StreamMux

namespace IdSource

variable {s s' : IdSource} {id : Int32} {n : Nat} {inUse : Int32 → Bool}

/-- How many ids a round has. -/
def roundLength : Nat := limit.toInt.toNat

theorem limit_eq_roundLength : limit.toInt = roundLength := by
  rw [roundLength, toInt_limit]
  rfl

/-- The ids in the order in which the counter comes to them: upward to the largest one, and from 1 on up to
the counter. -/
def round (s : IdSource) : List Int32 :=
  (List.range' (s.last.toInt.toNat + 1) (roundLength - s.last.toInt.toNat) ++
    List.range' 1 (min s.last.toInt.toNat roundLength)).map Int32.ofNat

/-! ### The counter -/

/-- Where the counter goes on: behind the last id, or at the start. -/
def base (s : IdSource) : Int32 := if Int32.maxValue - s.last < idWrapMargin then 0 else s.last

theorem successor_eq (s : IdSource) : s.successor = s.base + 1 := rfl

/-- The numbers that the counter is computed from stay within 32 bits. -/
structure Exact (s : IdSource) : Prop where
  room : (Int32.maxValue - s.last).toInt = Int32.maxValue.toInt - s.last.toInt
  next : s.successor.toInt = s.base.toInt + 1

theorem exact_of_nonneg (h : 0 ≤ s.last) : s.Exact := by
  have hmax := Int32.toInt_lt s.last
  rw [Int32.le_iff_toInt_le, Int32.toInt_zero] at h
  have hroom : (Int32.maxValue - s.last).toInt = Int32.maxValue.toInt - s.last.toInt := by
    rw [Int32.toInt_sub, show Int32.maxValue.toInt = 2147483647 from by decide]
    exact Int.bmod_eq_of_le_mul_two (by omega) (by omega)
  refine ⟨hroom, ?_⟩
  rw [successor_eq]
  unfold base
  split
  · decide
  · rename_i hfar
    rw [Int32.lt_iff_toInt_lt, hroom, show Int32.maxValue.toInt = 2147483647 from by decide,
      show idWrapMargin.toInt = 10000 from by decide] at hfar
    rw [Int32.toInt_add, show (1 : Int32).toInt = 1 from by decide]
    exact Int.bmod_eq_of_le_mul_two (by omega) (by omega)

theorem successor_pos (h : 0 ≤ s.last) : 0 < s.successor := by
  rw [Int32.le_iff_toInt_le, Int32.toInt_zero] at h
  rw [Int32.lt_iff_toInt_lt, Int32.toInt_zero, toInt_successor]
  split <;> omega

/-! ### The ids that are tried -/

/-- The first ids that the counter comes to. -/
def trail : Nat → IdSource → List Int32
  | 0, _ => []
  | n + 1, s => s.successor :: trail n ⟨s.successor⟩

/-- A search gives the first id that it tries and that is not in use. -/
theorem search_eq_find? (h : 0 ≤ s.last) (n : Nat) :
    s.search inUse n = ((trail n s).find? (!inUse ·)).map fun id => (id, ⟨id⟩) := by
  induction n generalizing s with
  | zero => rfl
  | succ n ih =>
    have hpos := successor_pos h
    rw [search, trail, List.find?_cons]
    cases huse : inUse s.successor with
    | false => simp [hpos]
    | true => simpa [huse] using ih (s := ⟨s.successor⟩) (Int32.le_of_lt hpos)

theorem trail_prefix {m : Nat} (h : m ≤ n) (s : IdSource) : trail m s <+: trail n s := by
  induction n generalizing m s with
  | zero =>
    obtain rfl := Nat.le_zero.1 h
    exact List.prefix_rfl
  | succ n ih =>
    cases m with
    | zero => exact List.nil_prefix
    | succ m => exact List.cons_prefix_cons.2 ⟨rfl, ih (Nat.le_of_succ_le_succ h) _⟩

theorem pos_of_mem_trail (h : 0 ≤ s.last) (hid : id ∈ s.trail n) : 0 < id := by
  induction n generalizing s with
  | zero => cases hid
  | succ n ih =>
    rcases List.mem_cons.1 hid with rfl | hid
    · exact successor_pos h
    · exact ih (Int32.le_of_lt (successor_pos h)) hid

/-- Below the largest id the counter goes up by one. -/
theorem successor_of_lt {last : Nat} (hlast : s.last.toInt = last) (hlt : last < roundLength) :
    s.successor = Int32.ofNat (last + 1) ∧ s.successor.toInt = (last + 1 : Nat) := by
  have hnext := s.toInt_successor
  have hlimit := limit_eq_roundLength
  rw [if_neg (by omega), hlast] at hnext
  refine ⟨?_, by omega⟩
  rw [← Int32.toInt_inj, hnext, Int32.toInt_ofNat_of_lt]
  · rfl
  · rw [toInt_limit] at hlimit
    omega

/-- From the largest id on the counter starts again. -/
theorem trail_of_limit_le (h : limit.toInt ≤ s.last.toInt) (n : Nat) : trail n s = trail n ⟨0⟩ := by
  cases n with
  | zero => rfl
  | succ n =>
    have hnext : s.successor = (⟨0⟩ : IdSource).successor := by
      rw [← Int32.toInt_inj, toInt_successor, toInt_successor, if_pos (.inr h), if_neg (by decide)]
      decide
    rw [trail, trail, hnext]

/-- While the counter stays below the largest id the ids go upward. -/
theorem trail_climb {last : Nat} (hlast : s.last.toInt = last) (hle : last + n ≤ roundLength) :
    trail n s = (List.range' (last + 1) n).map Int32.ofNat := by
  induction n generalizing s last with
  | zero => rfl
  | succ n ih =>
    obtain ⟨hnext, hint⟩ := successor_of_lt hlast (by omega)
    rw [trail, List.range'_succ, List.map_cons, ← hnext, ih (s := ⟨s.successor⟩) hint (by omega)]

/-- Behind the largest id the ids go on from the start. -/
theorem trail_wrap {last k : Nat} (hlast : s.last.toInt = last) (hk : last + k = roundLength) (n : Nat) :
    trail (k + n) s = (List.range' (last + 1) k).map Int32.ofNat ++ trail n ⟨0⟩ := by
  induction k generalizing s last with
  | zero =>
    have hlimit := limit_eq_roundLength
    rw [Nat.zero_add, trail_of_limit_le (by omega)]
    rfl
  | succ k ih =>
    obtain ⟨hnext, hint⟩ := successor_of_lt hlast (by omega)
    rw [Nat.succ_add, trail, List.range'_succ, List.map_cons, ← hnext,
      ih (s := ⟨s.successor⟩) hint (by omega), List.cons_append]

/-- As many ids as a round has are a round. -/
theorem trail_roundLength (h : 0 ≤ s.last) : trail roundLength s = s.round := by
  rw [Int32.le_iff_toInt_le, Int32.toInt_zero] at h
  have hlast : s.last.toInt = s.last.toInt.toNat := by omega
  have hlimit := limit_eq_roundLength
  have hzero : (⟨0⟩ : IdSource).last.toInt = (0 : Nat) := by decide
  unfold round
  rcases Nat.lt_or_ge s.last.toInt.toNat roundLength with hlt | hge
  · have hsum : roundLength = (roundLength - s.last.toInt.toNat) + s.last.toInt.toNat := by omega
    conv_lhs => rw [hsum]
    rw [trail_wrap hlast (by omega), trail_climb hzero (by omega), Nat.min_eq_left (by omega), List.map_append]
  · rw [trail_of_limit_le (by omega), trail_climb hzero (by omega), Nat.sub_eq_zero_of_le hge,
      Nat.min_eq_right hge]
    rfl

/-! ### The round -/

/-- A round holds every id up to the largest one. -/
theorem mem_round : id ∈ s.round ↔ 0 < id ∧ id ≤ limit := by
  have hlimit := limit_eq_roundLength
  have hlarge := toInt_limit
  rw [Int32.lt_iff_toInt_lt, Int32.le_iff_toInt_le, Int32.toInt_zero]
  unfold round
  simp only [List.mem_map, List.mem_append, List.mem_range'_1]
  constructor
  · rintro ⟨i, hi, rfl⟩
    rw [Int32.toInt_ofNat_of_lt (by omega)]
    omega
  · intro hid
    refine ⟨id.toInt.toNat, by omega, ?_⟩
    rw [← Int32.toInt_inj, Int32.toInt_ofNat_of_lt (by omega)]
    omega

/-- No id stands in a round twice. -/
theorem nodup_round (s : IdSource) : s.round.Nodup := by
  have hlimit := limit_eq_roundLength
  have hlarge := toInt_limit
  refine List.Nodup.map_on (fun i hi j hj heq => ?_) ?_
  · rw [List.mem_append, List.mem_range'_1, List.mem_range'_1] at hi hj
    have hint := congrArg Int32.toInt heq
    rw [Int32.toInt_ofNat_of_lt (by omega), Int32.toInt_ofNat_of_lt (by omega)] at hint
    omega
  · refine List.nodup_append'.2 ⟨List.nodup_range', List.nodup_range', fun i hi hj => ?_⟩
    rw [List.mem_range'_1] at hi hj
    omega

/-- A search of a round or longer gives the first id of the round that is not in use. -/
theorem search_of_free (h : 0 ≤ s.last) (hfree : ∃ i, 0 < i ∧ i ≤ limit ∧ inUse i = false) :
    ∃ id, s.round.find? (!inUse ·) = some id ∧
      ∀ n, roundLength ≤ n → s.search inUse n = some (id, ⟨id⟩) := by
  obtain ⟨i, hpos, hle, hi⟩ := hfree
  have hsome : (s.round.find? (!inUse ·)).isSome := by
    rw [List.find?_isSome]
    exact ⟨i, mem_round.2 ⟨hpos, hle⟩, by simp [hi]⟩
  obtain ⟨id, hid⟩ := Option.isSome_iff_exists.1 hsome
  refine ⟨id, hid, fun n hn => ?_⟩
  obtain ⟨rest, hrest⟩ := trail_prefix hn s
  rw [search_eq_find? h, ← hrest, trail_roundLength h, List.find?_append, hid]
  rfl

/-! ### Runs -/

/-- Draw one id after another; what is in use may be different each time. -/
def drawEach : List (Int32 → Bool) → IdSource → Option (List Int32 × IdSource)
  | [], s => some ([], s)
  | inUse :: rest, s => do
    let (id, s) ← s.draw inUse
    let (ids, s) ← s.drawEach rest
    return (id :: ids, s)

theorem drawEach_cons {rest : List (Int32 → Bool)} {ids : List Int32} (hdraw : s.draw inUse = some (id, ⟨id⟩))
    (hrest : drawEach rest ⟨id⟩ = some (ids, s')) :
    s.drawEach (inUse :: rest) = some (id :: ids, s') := by
  simp [drawEach, hdraw, hrest]

theorem roundLength_le_rounds : roundLength ≤ rounds := by
  have hlimit := limit_eq_roundLength
  rw [toInt_limit] at hlimit
  unfold rounds
  omega

/-- If an id is free each time, each draw gives one. -/
theorem exists_drawEach (h : 0 ≤ s.last) {uses : List (Int32 → Bool)}
    (hfree : ∀ inUse ∈ uses, ∃ i, 0 < i ∧ i ≤ limit ∧ inUse i = false) :
    ∃ ids s', s.drawEach uses = some (ids, s') ∧ ids.length = uses.length ∧ 0 ≤ s'.last := by
  induction uses generalizing s with
  | nil => exact ⟨[], s, rfl, rfl, h⟩
  | cons inUse uses ih =>
    obtain ⟨id, hid, hsearch⟩ := search_of_free h (hfree inUse List.mem_cons_self)
    have hpos : 0 < id := (mem_round.1 (List.mem_of_find?_eq_some hid)).1
    obtain ⟨ids, s', heach, hlength, hlast⟩ := ih (s := ⟨id⟩) (Int32.le_of_lt hpos)
      fun inUse hmem => hfree inUse (List.mem_cons_of_mem _ hmem)
    exact ⟨id :: ids, s', drawEach_cons (hsearch rounds roundLength_le_rounds) heach, by simp [hlength], hlast⟩

/-- With nothing in use the ids are drawn as the counter comes to them. -/
theorem drawEach_of_unused (h : 0 ≤ s.last) (n : Nat) :
    ∃ s', s.drawEach (.replicate n fun _ => false) = some (s.trail n, s') := by
  induction n generalizing s with
  | zero => exact ⟨s, rfl⟩
  | succ n ih =>
    have hpos := successor_pos h
    obtain ⟨s', heach⟩ := ih (s := ⟨s.successor⟩) (Int32.le_of_lt hpos)
    have hdraw : s.draw (fun _ => false) = some (s.successor, ⟨s.successor⟩) := by
      rw [draw, show rounds = 2147483647 + 1 from rfl, search, if_pos ⟨hpos, rfl⟩]
    exact ⟨s', drawEach_cons hdraw heach⟩

/-- Draws from a counter that is not negative, each of which finds an id that is free, all give an id. After
any such run the next draw gives the first free id of the round, and needs no more tries than a round has
ids; that id is positive and no larger than the largest, and the counter then stands on it. No number that
the counter is computed from, in that draw or later, leaves the 32 bits. If nothing is in use, the draws of a
round all give different ids. -/
theorem ids_drawn_in_rounds {start : IdSource} (hstart : 0 ≤ start.last) {uses : List (Int32 → Bool)}
    (hfree : ∀ inUse ∈ uses, ∃ i, 0 < i ∧ i ≤ limit ∧ inUse i = false) :
    ∃ ids s, start.drawEach uses = some (ids, s) ∧ ids.length = uses.length ∧
      (∀ inUse, (∃ i, 0 < i ∧ i ≤ limit ∧ inUse i = false) → ∃ id, s.draw inUse = some (id, ⟨id⟩) ∧
        s.round.find? (!inUse ·) = some id ∧ 0 < id ∧ id ≤ limit ∧ inUse id = false ∧
        ∀ n, roundLength ≤ n → s.search inUse n = some (id, ⟨id⟩)) ∧
      (s.Exact ∧ ∀ n, ∀ id ∈ s.trail n, (⟨id⟩ : IdSource).Exact) ∧
      ∃ drawn s', s.drawEach (.replicate roundLength fun _ => false) = some (drawn, s') ∧ drawn.Nodup := by
  obtain ⟨ids, s, heach, hlength, hlast⟩ := exists_drawEach hstart hfree
  refine ⟨ids, s, heach, hlength, fun inUse hsome => ?_, ⟨exact_of_nonneg hlast, fun n id hid => ?_⟩, ?_⟩
  · obtain ⟨id, hid, hsearch⟩ := search_of_free hlast hsome
    obtain ⟨hpos, hle⟩ := mem_round.1 (List.mem_of_find?_eq_some hid)
    exact ⟨id, hsearch rounds roundLength_le_rounds, hid, hpos, hle, by simpa using List.find?_some hid, hsearch⟩
  · exact exact_of_nonneg (Int32.le_of_lt (pos_of_mem_trail hlast hid))
  · obtain ⟨s', hunused⟩ := drawEach_of_unused hlast roundLength
    rw [trail_roundLength hlast] at hunused
    exact ⟨_, s', hunused, s.nodup_round⟩

/-- At the first draw nothing is in use; at the second the largest id and the smallest are. -/
def crowdedEnds : List (Int32 → Bool) := [fun _ => false, fun id => id == limit || id == 1]

/-- The largest id and the smallest are passed over; the round after that is drawn without repetition. -/
theorem crowdedEnds_drawn :
    drawEach crowdedEnds ⟨2147473646⟩ = some ([2147473647, 2], ⟨2⟩) ∧
    ∃ drawn s', drawEach (.replicate roundLength fun _ => false) ⟨2⟩ = some (drawn, s') ∧ drawn.Nodup := by
  have hdraws : drawEach crowdedEnds ⟨2147473646⟩ = some ([2147473647, 2], ⟨2⟩) := by decide
  have hfree : ∀ inUse ∈ crowdedEnds, ∃ i, 0 < i ∧ i ≤ limit ∧ inUse i = false := by
    intro inUse hmem
    refine ⟨2, by decide, by decide, ?_⟩
    rcases List.mem_pair.1 hmem with rfl | rfl <;> decide
  have hstart : 0 ≤ (⟨2147473646⟩ : IdSource).last := by decide
  obtain ⟨ids, s, heach, -, -, -, hround⟩ := ids_drawn_in_rounds hstart hfree
  rw [hdraws] at heach
  obtain ⟨-, rfl⟩ : [2147473647, 2] = ids ∧ ⟨2⟩ = s := by simpa using heach
  exact ⟨hdraws, hround⟩

end IdSource

end StreamMux
