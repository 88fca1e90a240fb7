import StreamMux.Waiting.Monitor

/-! Numbered calls on one monitor. A call that was started, woken or cancelled is ready; ready calls
run in the order in which they became so. A call that gets an answer is finished, and a cancelled one
goes away when its turn comes. -/

namespace StreamMux

/-- Append what is not in the line yet. -/
def joinLine {κ : Type} [DecidableEq κ] (line more : List κ) : List κ :=
  more.foldl (fun line k => if k ∈ line then line else line ++ [k]) line

/-- `γ` is what a call asks for. -/
structure Desk (σ γ : Type) where
  monitor : Monitor Nat σ
  /-- The calls without an answer, by number. -/
  pending : List (Nat × γ) := []
  /-- The calls that are to go away. -/
  cancelled : List Nat := []
  /-- The calls to run, in order. -/
  ready : List Nat := []
  /-- Calls started so far. -/
  started : Nat := 0
  deriving DecidableEq

namespace Desk

variable {σ γ β : Type}

/-- Start a call; it runs when its turn comes. -/
def start (request : γ) (d : Desk σ γ) : Desk σ γ :=
  { d with
    pending := d.pending ++ [(d.started, request)]
    ready := d.ready ++ [d.started]
    started := d.started + 1 }

/-- Change the monitor; the calls woken by that become ready. -/
def act (change : Monitor Nat σ × List Nat) (d : Desk σ γ) : Desk σ γ :=
  { d with monitor := change.1, ready := joinLine d.ready change.2 }

/-- Drop a call that has no answer yet, when its turn comes. -/
def cancel (k : Nat) (d : Desk σ γ) : Desk σ γ :=
  if d.pending.any (·.1 = k) then
    { d with cancelled := k :: d.cancelled, ready := joinLine d.ready [k] }
  else d

/-- Forget a call. -/
def remove (k : Nat) (d : Desk σ γ) : Desk σ γ := { d with pending := d.pending.filter (·.1 ≠ k) }

/-- Run one call, and answer what it got. -/
def runCall (look : γ → σ → σ × Option β) (k : Nat) (d : Desk σ γ) : Desk σ γ × List (Nat × β) :=
  match d.pending.lookup k with
  | none => (d, [])
  | some request =>
    if k ∈ d.cancelled then ((d.remove k).act (d.monitor.leave k), [])
    else
      match d.monitor.poll k (look request) with
      | (monitor, none) => ({ d with monitor }, [])
      | (monitor, some answer) => ({ d.remove k with monitor }, [(k, answer)])

/-- Run at most so many calls. -/
def settleFor (look : γ → σ → σ × Option β) : Nat → Desk σ γ → Desk σ γ × List (Nat × β)
  | 0, d => (d, [])
  | turns + 1, d =>
    match d.ready with
    | [] => (d, [])
    | k :: rest =>
      let (d, answers) := ({ d with ready := rest }).runCall look k
      let (d, more) := d.settleFor look turns
      (d, answers ++ more)

/-- Run every ready call, and answer what they got. A turn either sends a call to sleep or ends it, and
an end makes at most one other call ready. -/
def settle (look : γ → σ → σ × Option β) (d : Desk σ γ) : Desk σ γ × List (Nat × β) :=
  d.settleFor look (2 * d.pending.length + d.ready.length)

end Desk

end StreamMux
