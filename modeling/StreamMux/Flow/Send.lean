import StreamMux.Waiting.Monitor

/-! The sending side of a connection: the credit that the peer has granted and that is not yet spent.
Writers wait while there is none. -/

namespace StreamMux

structure SendWindow where
  /-- Credit in bytes. -/
  remaining : UInt32
  closed : Bool := false
  deriving DecidableEq

namespace SendWindow

/-- Spend up to `want` bytes of credit. A closed window gives none, an empty one keeps waiting. -/
def acquire (want : Nat) (w : SendWindow) : SendWindow × Option (Option Nat) :=
  if w.closed then (w, some none)
  else if w.remaining = 0 then (w, none)
  else
    let n := min want w.remaining.toNat
    ({ w with remaining := w.remaining - UInt32.ofNat n }, some (some n))

theorem eq_of_acquire {want : Nat} {w w' : SendWindow} {answer : Option (Option Nat)}
    (h : w.acquire want = (w', answer)) (hnone : ∀ n, answer ≠ some (some n)) : w' = w := by
  unfold acquire at h
  split at h
  · cases h; rfl
  · split at h
    · cases h; rfl
    · cases h; exact absurd rfl (hnone _)

/-- No more credit is spent than was asked for. -/
theorem le_of_acquire {want credit : Nat} {w w' : SendWindow}
    (h : w.acquire want = (w', some (some credit))) : credit ≤ want := by
  unfold acquire at h
  split at h
  · cases h
  · split at h <;> cases h
    exact Nat.min_le_left _ _

/-- Credit that is given is some, if some was asked for. -/
theorem pos_of_acquire {want credit : Nat} {w w' : SendWindow}
    (h : w.acquire want = (w', some (some credit))) (hwant : 0 < want) : 0 < credit := by
  unfold acquire at h
  split at h
  · cases h
  · split at h
    · cases h
    · rename_i hsome
      cases h
      have hremaining : w.remaining.toNat ≠ 0 := fun hz => hsome (UInt32.toNat_inj.1 hz)
      omega

/-- Credit is added up to the largest number that the window can hold. -/
def grant (credit : UInt32) (w : SendWindow) : SendWindow :=
  { w with remaining := UInt32.ofNat (min (w.remaining.toNat + credit.toNat) 4294967295) }

end SendWindow

/-- A send window with its waiting writers. -/
abbrev Outflow (κ : Type) := Monitor κ SendWindow

namespace Outflow

variable {κ : Type} [DecidableEq κ]

def withCredit (initial : UInt32) : Outflow κ := { state := { remaining := initial } }

/-- Add credit and wake every writer. -/
def grant (credit : UInt32) (f : Outflow κ) : Outflow κ × List κ := f.tellAll (f.state.grant credit)

/-- Give no credit from now on, and wake every writer. -/
def close (f : Outflow κ) : Outflow κ × List κ := f.tellAll { f.state with closed := true }

/-- A writer runs. -/
def acquire (k : κ) (want : Nat) (f : Outflow κ) : Outflow κ × Option (Option Nat) :=
  f.poll k (SendWindow.acquire want)

/-- A writer runs up to its sleep. -/
def look (k : κ) (want : Nat) (f : Outflow κ) : Outflow κ × Option (Option Nat) :=
  f.glance k (SendWindow.acquire want)

end Outflow

end StreamMux
