import StreamMux.Wire.Frame

/-! The settings of a session. Every setter keeps its field in the range in which a session works. -/

namespace StreamMux

/-- A span of time in nanoseconds. -/
abbrev Duration := Nat

namespace Duration

def ofSeconds (seconds : Nat) (nanos : Nat) : Duration := seconds * 1000000000 + nanos

def ofMillis (millis : Nat) : Duration := millis * 1000000

/-- Whole seconds. -/
def seconds (d : Duration) : Nat := d / 1000000000

/-- Nanoseconds beyond the whole seconds. -/
def nanos (d : Duration) : Nat := d % 1000000000

end Duration

/-- A segment and its header, with room for a credit report, fill one pooled buffer. -/
def defaultSegment : Nat := poolBufferSize - lengthSize - headerSize - windowSize

/-- The receive window of a connection, 32 MiB. -/
def defaultWindow : UInt32 := 33554432

/-- Idle buffers that a pool keeps. -/
def defaultPoolCapacity : Nat := 1024

structure Settings where
  /-- Time between two keep-alive pings. -/
  pingInterval : Duration := .ofSeconds 5 0
  /-- Intervals without a returned ping that end the session. -/
  pingTimeoutMisses : Nat := 60
  /-- Silent intervals that end a session over KCP. -/
  kcpIdleLimit : Nat := 10
  /-- How long a request for a connection waits for its answer. -/
  openTimeout : Duration := .ofSeconds 120 0
  /-- Longest payload of a segment. -/
  maxSegment : Nat := defaultSegment
  /-- Bytes that a connection buffers, and its first credit. -/
  receiveWindow : UInt32 := defaultWindow
  /-- Idle buffers that the session's pool keeps. -/
  poolCapacity : Nat := defaultPoolCapacity
  /-- Connections accepted ahead of the calls that take them. -/
  acceptBacklog : Nat := 1
  /-- Returned pings that may wait to be handled. -/
  pingQueue : Nat := 1
  deriving DecidableEq

namespace Settings

/-- At least a millisecond. -/
def withPingInterval (interval : Duration) (s : Settings) : Settings :=
  { s with pingInterval := max interval (.ofMillis 1) }

def withPingTimeoutMisses (misses : Nat) (s : Settings) : Settings :=
  { s with pingTimeoutMisses := max misses 1 }

def withKcpIdleLimit (limit : Nat) (s : Settings) : Settings := { s with kcpIdleLimit := max limit 1 }

def withOpenTimeout (timeout : Duration) (s : Settings) : Settings := { s with openTimeout := timeout }

/-- At least one byte, and no more than a length field can announce. -/
def withMaxSegment (size : Nat) (s : Settings) : Settings :=
  { s with maxSegment := min (max size 1) maxPayload }

def withReceiveWindow (window : UInt32) (s : Settings) : Settings :=
  { s with receiveWindow := max window 1 }

def withPoolCapacity (capacity : Nat) (s : Settings) : Settings := { s with poolCapacity := capacity }

def withAcceptBacklog (backlog : Nat) (s : Settings) : Settings :=
  { s with acceptBacklog := max backlog 1 }

def withPingQueue (depth : Nat) (s : Settings) : Settings := { s with pingQueue := max depth 1 }

/-- One setter with its argument. -/
inductive Change
  | pingInterval (interval : Duration)
  | pingTimeoutMisses (misses : Nat)
  | kcpIdleLimit (limit : Nat)
  | openTimeout (timeout : Duration)
  | maxSegment (size : Nat)
  | receiveWindow (window : UInt32)
  | poolCapacity (capacity : Nat)
  | acceptBacklog (backlog : Nat)
  | pingQueue (depth : Nat)
  deriving DecidableEq

def apply (s : Settings) : Change → Settings
  | .pingInterval interval => s.withPingInterval interval
  | .pingTimeoutMisses misses => s.withPingTimeoutMisses misses
  | .kcpIdleLimit limit => s.withKcpIdleLimit limit
  | .openTimeout timeout => s.withOpenTimeout timeout
  | .maxSegment size => s.withMaxSegment size
  | .receiveWindow window => s.withReceiveWindow window
  | .poolCapacity capacity => s.withPoolCapacity capacity
  | .acceptBacklog backlog => s.withAcceptBacklog backlog
  | .pingQueue depth => s.withPingQueue depth

/-- The default settings with changes made in order. -/
def build (changes : List Change) : Settings := changes.foldl apply {}

/-- Every field is in the range in which a session works. -/
structure InRange (s : Settings) : Prop where
  pingInterval : Duration.ofMillis 1 ≤ s.pingInterval
  pingTimeoutMisses : 1 ≤ s.pingTimeoutMisses
  kcpIdleLimit : 1 ≤ s.kcpIdleLimit
  maxSegment : 1 ≤ s.maxSegment
  maxSegment_le : s.maxSegment ≤ maxPayload
  receiveWindow : 1 ≤ s.receiveWindow.toNat
  acceptBacklog : 1 ≤ s.acceptBacklog
  pingQueue : 1 ≤ s.pingQueue

theorem InRange.default : InRange {} := by constructor <;> decide

theorem InRange.apply {s : Settings} (h : s.InRange) (change : Change) : (s.apply change).InRange := by
  cases change with
  | pingInterval interval => exact { h with pingInterval := Nat.le_max_right .. }
  | pingTimeoutMisses misses => exact { h with pingTimeoutMisses := Nat.le_max_right .. }
  | kcpIdleLimit limit => exact { h with kcpIdleLimit := Nat.le_max_right .. }
  | openTimeout timeout => exact { h with }
  | maxSegment size =>
    have hmax : 1 ≤ maxPayload := by decide
    exact { h with
      maxSegment := Nat.le_min.2 ⟨Nat.le_max_right .., hmax⟩
      maxSegment_le := Nat.min_le_right .. }
  | receiveWindow window =>
    refine { h with receiveWindow := ?_ }
    show 1 ≤ (if window ≤ 1 then 1 else window).toNat
    split
    · decide
    · rename_i hw
      rw [UInt32.le_iff_toNat_le] at hw
      exact Nat.le_of_lt (Nat.lt_of_not_le hw)
  | poolCapacity capacity => exact { h with }
  | acceptBacklog backlog => exact { h with acceptBacklog := Nat.le_max_right .. }
  | pingQueue depth => exact { h with pingQueue := Nat.le_max_right .. }

/-- Settings made by setters are in range, whatever their arguments. -/
theorem inRange_build (changes : List Change) : (build changes).InRange := by
  unfold build
  generalize hs : ({} : Settings) = s
  have h : s.InRange := hs ▸ .default
  clear hs
  induction changes generalizing s with
  | nil => exact h
  | cons change changes ih => exact ih _ (h.apply change)

/-- How many accepted connections may wait to be taken: one at least, whatever the field says. -/
def backlog (s : Settings) : Nat := max s.acceptBacklog 1

/-- How many returned pings may wait to be handled: one at least, whatever the field says. -/
def pongRoom (s : Settings) : Nat := max s.pingQueue 1

theorem pongRoom_pos (s : Settings) : 0 < s.pongRoom := Nat.le_max_right ..

/-- The size of the session's payload buffers: a whole segment fits, and a ping. -/
def bufferSize (s : Settings) : Nat := max poolBufferSize s.maxSegment

end Settings

end StreamMux
