import StreamMux.Session.Basic

/-! What a session has done, read off its trace with the earliest first: the frames it queued, started
and acted on, the connections it was asked for, and for each connection the segments that its receive
window took and what its readers were given. -/

namespace StreamMux

namespace Event

def queued? : Event → Option Outgoing
  | .queued out => some out
  | _ => none

def started? : Event → Option Outgoing
  | .started out => some out
  | _ => none

def dispatched? : Event → Option Frame
  | .dispatched frame => some frame
  | _ => none

def staged? : Event → Option Nat
  | .staged conn => some conn
  | _ => none

def routed? (conn : Nat) : Event → Option Frame
  | .routed n frame => if n = conn then some frame else none
  | _ => none

def buffered? (conn : Nat) : Event → Option Segment
  | .buffered n segment => if n = conn then some segment else none
  | _ => none

def handedOut? (conn : Nat) : Event → Option Taken
  | .handedOut n taken => if n = conn then some taken else none
  | _ => none

/-- The event is one of the traffic between a session, its peer and the readers of its connections. -/
def isTraffic : Event → Bool
  | .queued _ | .started _ | .dispatched _ | .routed _ _ | .buffered _ _ | .handedOut _ _
  | .staged _ => true
  | _ => false

end Event

section History

variable {β : Type}

/-- What a trace tells, the earliest first. -/
def history (pick : Event → Option β) (trace : List Event) : List β := (trace.filterMap pick).reverse

@[simp] theorem history_nil (pick : Event → Option β) : history pick [] = [] := rfl

@[simp] theorem history_cons (pick : Event → Option β) (e : Event) (trace : List Event) :
    history pick (e :: trace) = history pick trace ++ (pick e).toList := by
  cases h : pick e <;> simp [history, h]

theorem mem_history {pick : Event → Option β} {trace : List Event} {b : β} :
    b ∈ history pick trace ↔ ∃ e ∈ trace, pick e = some b := by
  simp [history]

/-- Events that tell nothing leave a history as it was. -/
theorem history_append {pick : Event → Option β} {es : List Event} (hes : ∀ e ∈ es, pick e = none)
    (trace : List Event) : history pick (es ++ trace) = history pick trace := by
  have hnone : es.filterMap pick = [] := by simpa [List.filterMap_eq_nil_iff] using hes
  rw [history, List.filterMap_append, hnone, List.nil_append, history]

/-- What is picked from the traffic alone does not need the rest of the trace. -/
theorem history_filter {pick : Event → Option β} (hpick : ∀ e, e.isTraffic = false → pick e = none)
    (trace : List Event) : history pick (trace.filter Event.isTraffic) = history pick trace := by
  induction trace with
  | nil => rfl
  | cons e trace ih =>
    cases he : e.isTraffic
    · rw [List.filter_cons_of_neg (by simp [he]), ih, history_cons, hpick e he]
      simp
    · rw [List.filter_cons_of_pos he, history_cons, history_cons, ih]

end History

/-- The frames that a reader acted on, each with the connection that it was routed to. -/
def hearings : List Event → List (Frame × Option Nat)
  | [] => []
  | .dispatched frame :: trace => hearings trace ++ [(frame, none)]
  | .routed n frame :: trace => (hearings trace).dropLast ++ [(frame, some n)]
  | _ :: trace => hearings trace

theorem hearings_filter (trace : List Event) :
    hearings (trace.filter Event.isTraffic) = hearings trace := by
  induction trace with
  | nil => rfl
  | cons e trace ih => cases e <;> simp [List.filter_cons, hearings, Event.isTraffic, ih]

namespace Session

/-- The frames that entered the write queue. -/
def queued (s : Session) : List Outgoing := history Event.queued? s.trace

/-- The frames that the writer took from the queue. -/
def started (s : Session) : List Outgoing := history Event.started? s.trace

/-- The frames that the reader acted on. -/
def dispatched (s : Session) : List Frame := history Event.dispatched? s.trace

/-- The connections that the peer asked for. -/
def askedFor (s : Session) : List Nat := history Event.staged? s.trace

/-- The frames that were queued for a connection. -/
def said (conn : Nat) (s : Session) : List Frame :=
  (s.queued.filter fun out => out.conn = some conn).map (·.frame)

/-- The frames that the reader acted on, each with the connection that it was routed to. -/
def hearings (s : Session) : List (Frame × Option Nat) := StreamMux.hearings s.trace

/-- The frames that were routed to a connection. -/
def heard (conn : Nat) (s : Session) : List Frame := history (Event.routed? conn) s.trace

/-- The segments that the receive window of a connection took. -/
def accepted (conn : Nat) (s : Session) : List Segment := history (Event.buffered? conn) s.trace

/-- What the readers of a connection were given. -/
def handedOut (conn : Nat) (s : Session) : List Taken := history (Event.handedOut? conn) s.trace

end Session

end StreamMux
