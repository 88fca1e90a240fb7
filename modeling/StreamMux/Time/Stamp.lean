import StreamMux.Wire.Bytes
import StreamMux.Time.Calendar

/-! Moments of the wall clock, in nanoseconds since the start of 1970 in universal time, and their
text: `2024-01-31T12:34:56.123456789Z` is written; a blank or a lower-case letter may stand for the
`T`, a lower-case letter for the `Z`, and an offset from universal time in its place. -/

namespace StreamMux

/-- Nanoseconds since the start of 1970. -/
abbrev Stamp := Int

namespace Stamp

/-- The day number of the first of January 1970. -/
def epochDay : Nat := 719528

def nanosPerSecond : Nat := 1000000000

/-- The moment at a time of a day. -/
def ofCivil (date : Date) (hour minute second nanos : Nat) (offsetMinutes : Int) : Stamp :=
  let days : Int := Int.ofNat date.dayNumber - Int.ofNat epochDay
  let minutes : Int := days * 1440 + Int.ofNat (hour * 60 + minute) - offsetMinutes
  minutes * 60000000000 + Int.ofNat (second * nanosPerSecond + nanos)

/-! ### Reading -/

/-- The value of an ASCII digit. -/
def digit? (b : UInt8) : Option Nat :=
  if 48 ≤ b.toNat ∧ b.toNat ≤ 57 then some (b.toNat - 48) else none

/-- Exactly `count` digits, after what was read of the number. -/
def number : Nat → Nat → Bytes → Option (Nat × Bytes)
  | 0, value, rest => some (value, rest)
  | _ + 1, _, [] => none
  | count + 1, value, b :: rest =>
    match digit? b with
    | some d => number count (value * 10 + d) rest
    | none => none

/-- One of some bytes. -/
def oneOf (choices : Bytes) : Bytes → Option Bytes
  | [] => none
  | b :: rest => if b ∈ choices then some rest else none

/-- All digits in front; the first nine give the nanoseconds, `scale` being the weight of the next. -/
def fractionDigits (scale nanos : Nat) : Bytes → Nat × Bytes
  | [] => (nanos, [])
  | b :: rest =>
    match digit? b with
    | some d => fractionDigits (scale / 10) (nanos + d * scale) rest
    | none => (nanos, b :: rest)

/-- A point with at least one digit behind it, or nothing. -/
def fraction : Bytes → Option (Nat × Bytes)
  | 46 :: b :: rest => if (digit? b).isSome then some (fractionDigits 100000000 0 (b :: rest)) else none
  | [46] => none
  | rest => some (0, rest)

/-- The sign of an offset: plus, hyphen, or the minus sign U+2212. -/
def sign : Bytes → Option (Int × Bytes)
  | 43 :: rest => some (1, rest)
  | 45 :: rest => some (-1, rest)
  | 0xe2 :: 0x88 :: 0x92 :: rest => some (-1, rest)
  | _ => none

/-- The offset at the end of a stamp, in minutes: `Z`, or a sign with hours and minutes. -/
def zone : Bytes → Option (Int × Bytes)
  | 90 :: rest => some (0, rest)
  | 122 :: rest => some (0, rest)
  | text => do
    let (sign, text) ← sign text
    let (hours, text) ← number 2 0 text
    let text ← oneOf [58] text
    let (minutes, text) ← number 2 0 text
    if hours ≤ 23 ∧ minutes ≤ 59 then some (sign * Int.ofNat (hours * 60 + minutes), text) else none

/-- The moment that a text names. A second 60 is taken in every minute. -/
def parse? (text : Bytes) : Option Stamp := do
  let (year, text) ← number 4 0 text
  let text ← oneOf [45] text
  let (month, text) ← number 2 0 text
  let text ← oneOf [45] text
  let (day, text) ← number 2 0 text
  let date ← Date.ofNumbers? year month day
  let text ← oneOf [84, 116, 32] text
  let (hour, text) ← number 2 0 text
  let text ← oneOf [58] text
  let (minute, text) ← number 2 0 text
  let text ← oneOf [58] text
  let (second, text) ← number 2 0 text
  let (nanos, text) ← fraction text
  let (offset, text) ← zone text
  if hour ≤ 23 ∧ minute ≤ 59 ∧ second ≤ 60 ∧ text = [] then
    some (ofCivil date hour minute second nanos offset)
  else none

/-! ### Writing -/

/-- The lowest `count` decimal digits of a number. -/
def digits : Nat → Nat → Bytes
  | 0, _ => []
  | count + 1, n => digits count (n / 10) ++ [UInt8.ofNat (48 + n % 10)]

@[simp] theorem length_digits (count n : Nat) : (digits count n).length = count := by
  induction count generalizing n with
  | zero => rfl
  | succ count ih => simp [digits, ih]

/-- A moment from the year 0 on, to the nanosecond, in universal time. -/
def render (s : Stamp) : Bytes :=
  let nanos := (s + Int.ofNat (epochDay * 86400 * nanosPerSecond)).toNat
  let date := Date.ofDayNumber (nanos / (86400 * nanosPerSecond))
  let second := nanos / nanosPerSecond % 86400
  digits 4 date.year ++ [45] ++ digits 2 date.month ++ [45] ++ digits 2 date.day ++ [84]
    ++ digits 2 (second / 3600) ++ [58] ++ digits 2 (second / 60 % 60) ++ [58]
    ++ digits 2 (second % 60) ++ [46] ++ digits 9 (nanos % nanosPerSecond) ++ [90]

theorem length_render (s : Stamp) : s.render.length = 30 := by simp [render]

example : parse? (render 1717171717123456789) = some 1717171717123456789 := by decide +kernel

example : parse? "1996-12-19t16:39:60.5-08:00".toUTF8.toList =
    parse? "1996-12-20 00:40:00.5z".toUTF8.toList := by decide +kernel

/-- Seconds of half the time between two moments, where there is a positive span that a signed
64-bit count of nanoseconds holds. -/
def halfSpan? (sent now : Stamp) : Option Float :=
  let span := now - sent
  if 0 < span ∧ span < 9223372036854775808 then some (Float.ofInt span / 2e9) else none

end Stamp

end StreamMux
