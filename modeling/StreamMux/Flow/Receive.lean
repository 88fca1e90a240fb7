import StreamMux.Waiting.Monitor
import StreamMux.Failure
import StreamMux.Wire.Bytes

/-! The receiving side of a connection: segments up to a bounded number of bytes, handed out in order
and never two at once. What was handed out is reported to the sender as credit. -/

namespace StreamMux

/-- The unread rest of a segment; `part` tells that more of the message follows. -/
structure Segment where
  data : Bytes
  part : Bool
  deriving DecidableEq

structure ReceiveWindow where
  /-- Unread bytes that fit. -/
  capacity : Nat
  segments : List Segment := []
  /-- Unread bytes. -/
  buffered : Nat := 0
  /-- Bytes handed out and not yet reported. -/
  consumed : Nat := 0
  stopped : Bool := false
  deriving DecidableEq

namespace ReceiveWindow

/-- Append a segment of connection `id`. -/
def write (id : Int32) (data : Bytes) (part : Bool) (w : ReceiveWindow) :
    Except MuxError ReceiveWindow :=
  if w.stopped then .error (.connectionClosed id)
  else if w.capacity < w.buffered + data.length then
    .error (.windowOverflow id w.buffered data.length w.capacity)
  else
    .ok { w with
      segments := w.segments ++ [⟨data, part⟩]
      buffered := w.buffered + data.length }

/-- Hand out `count` bytes of the unread ones. -/
def consume (count : Nat) (segments : List Segment) (w : ReceiveWindow) : ReceiveWindow :=
  { w with segments, buffered := w.buffered - count, consumed := w.consumed + count }

/-- Up to `size` bytes of the first segment that has any, or nothing once the window is stopped and
read up. Segments without bytes in front of it are passed over. -/
def read (size : Nat) (w : ReceiveWindow) : ReceiveWindow × Option Bytes :=
  match w.segments.dropWhile (·.data.isEmpty) with
  | [] => ({ w with segments := [] }, if w.stopped then some [] else none)
  | front :: rest =>
    let taken := front.data.take size
    let left := front.data.drop size
    let segments := if left.isEmpty then rest else { front with data := left } :: rest
    (w.consume taken.length segments, some taken)

/-- The first segment, or nothing once the window is stopped and read up. -/
def readSegment (w : ReceiveWindow) : ReceiveWindow × Option (Option Segment) :=
  match w.segments with
  | front :: rest => (w.consume front.data.length rest, some (some front))
  | [] => (w, if w.stopped then some none else none)

/-- The bytes to report: all that were handed out since the last report, once they reach the threshold
or nothing is left unread. -/
def takeCredit (threshold : Nat) (w : ReceiveWindow) : ReceiveWindow × Option UInt32 :=
  if w.consumed = 0 ∨ (w.consumed < threshold ∧ 0 < w.buffered) then (w, none)
  else ({ w with consumed := 0 }, some (UInt32.ofNat (min w.consumed 4294967295)))

end ReceiveWindow

/-- A receive window with its waiting readers. -/
abbrev Inflow (κ : Type) := Monitor κ ReceiveWindow

/-- What a reader asks for: up to so many bytes, or a segment. -/
inductive Want
  | bytes (size : Nat)
  | segment
  deriving DecidableEq

/-- What a reader gets: bytes, or a segment, or no segment at the end. -/
inductive Taken
  | bytes (data : Bytes)
  | segment (segment : Option Segment)
  deriving DecidableEq

/-- What a reader sees. A reader for no bytes gets none at once. -/
def ReceiveWindow.serve : Want → ReceiveWindow → ReceiveWindow × Option Taken
  | .bytes 0, w => (w, some (.bytes []))
  | .bytes size, w =>
    let (w, data) := w.read size
    (w, data.map .bytes)
  | .segment, w =>
    let (w, segment) := w.readSegment
    (w, segment.map .segment)

namespace Inflow

variable {κ : Type} [DecidableEq κ]

def withCapacity (capacity : Nat) : Inflow κ := { state := { capacity } }

/-- Append a segment and wake one reader. -/
def write (id : Int32) (data : Bytes) (part : Bool) (f : Inflow κ) :
    Except MuxError (Inflow κ × List κ) :=
  (f.state.write id data part).map fun state => f.tellOne state

/-- Refuse segments from now on, and wake every reader. -/
def stop (f : Inflow κ) : Inflow κ × List κ := f.tellAll { f.state with stopped := true }

def takeCredit (threshold : Nat) (f : Inflow κ) : Inflow κ × Option UInt32 :=
  let (state, credit) := f.state.takeCredit threshold
  ({ f with state }, credit)

/-- A reader runs. -/
def take (k : κ) (want : Want) (f : Inflow κ) : Inflow κ × Option Taken :=
  f.poll k (ReceiveWindow.serve want)

/-- A reader runs up to its sleep. -/
def look (k : κ) (want : Want) (f : Inflow κ) : Inflow κ × Option Taken :=
  f.glance k (ReceiveWindow.serve want)

end Inflow

end StreamMux
