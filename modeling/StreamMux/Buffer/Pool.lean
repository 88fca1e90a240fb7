import StreamMux.Wire.Bytes

/-! A pool of reusable payload buffers. A buffer that is given back is emptied and kept for the next
taker, unless it has become too small or the pool keeps enough idle ones. -/

namespace StreamMux

/-- A growable byte buffer. The serial number tells it from every other buffer of its pool. -/
structure Buffer where
  serial : Nat
  capacity : Nat
  bytes : Bytes := []
  deriving DecidableEq

namespace Buffer

/-- Room for `needed` bytes: a buffer that is too small at least doubles. -/
def grow (needed : Nat) (b : Buffer) : Buffer :=
  if needed ≤ b.capacity then b else { b with capacity := max (max (2 * b.capacity) needed) 8 }

/-- Put other contents in, growing where they need it. -/
def fill (bytes : Bytes) (b : Buffer) : Buffer := { b.grow bytes.length with bytes }

def extend (more : Bytes) (b : Buffer) : Buffer := b.fill (b.bytes ++ more)

/-- Cut, or lengthen with a filler byte, to a length. -/
def resize (length : Nat) (filler : UInt8) (b : Buffer) : Buffer :=
  b.fill (b.bytes.take length ++ List.replicate (length - b.bytes.length) filler)

def truncate (length : Nat) (b : Buffer) : Buffer := { b with bytes := b.bytes.take length }

/-- Cut the first bytes off, and their room with them. -/
def splitOff (count : Nat) (b : Buffer) : Buffer :=
  { b with capacity := b.capacity - min count b.bytes.length, bytes := b.bytes.drop count }

end Buffer

/-- What a holder may do to a buffer. -/
inductive Edit
  | extend (more : Bytes)
  | resize (length : Nat) (filler : UInt8)
  | truncate (length : Nat)
  | splitOff (count : Nat)
  /-- Put a new buffer of exactly these bytes in its place. -/
  | replace (bytes : Bytes)
  deriving DecidableEq

structure Pool where
  bufferSize : Nat
  maxIdle : Nat
  /-- The idle buffers, the one given back last in front. -/
  idle : List Buffer := []
  /-- Buffers taken and not yet given back. -/
  outstanding : Nat := 0
  /-- The serial number of the next new buffer. -/
  fresh : Nat := 0
  deriving DecidableEq

namespace Pool

/-- Take an empty buffer: an idle one if there is any. -/
def acquire (p : Pool) : Pool × Buffer :=
  match p.idle with
  | b :: rest => ({ p with idle := rest, outstanding := p.outstanding + 1 }, b)
  | [] =>
    ({ p with outstanding := p.outstanding + 1, fresh := p.fresh + 1 },
      { serial := p.fresh, capacity := p.bufferSize })

/-- Take a buffer and put bytes into it. -/
def copy (bytes : Bytes) (p : Pool) : Pool × Buffer :=
  let (p, b) := p.acquire
  (p, b.extend bytes)

/-- Give a buffer back. -/
def release (b : Buffer) (p : Pool) : Pool :=
  let p := { p with outstanding := p.outstanding - 1 }
  if b.capacity < p.bufferSize then p
  else if p.idle.length < p.maxIdle then { p with idle := { b with bytes := [] } :: p.idle }
  else p

/-- Change a buffer that is held; a replacement is a new buffer. -/
def edit (b : Buffer) (p : Pool) : Edit → Pool × Buffer
  | .extend more => (p, b.extend more)
  | .resize length filler => (p, b.resize length filler)
  | .truncate length => (p, b.truncate length)
  | .splitOff count => (p, b.splitOff count)
  | .replace bytes =>
    ({ p with fresh := p.fresh + 1 }, { serial := p.fresh, capacity := bytes.length, bytes })

end Pool

end StreamMux
