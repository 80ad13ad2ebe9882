/-
Spans of time, as whole seconds and nanoseconds below one second, so that each
span has one form. A configuration writes them as whole microseconds in 64
bits: finer spans are rounded down, and those too long for it stop at the
largest number.

A clock tells the time as the span since some origin.
-/
import Servo.Single

namespace Servo

/-- A span of time. -/
structure Duration where
  seconds : UInt64
  nanoseconds : UInt32
  nanoseconds_lt : nanoseconds.toNat < 1000000000 := by decide
deriving DecidableEq, Repr

namespace Duration

def zero : Duration where
  seconds := 0
  nanoseconds := 0

instance : Inhabited Duration := ⟨zero⟩

/-- The whole span in nanoseconds. -/
def totalNanoseconds (d : Duration) : Nat :=
  1000000000 * d.seconds.toNat + d.nanoseconds.toNat

/-- The span of a number of microseconds. -/
def ofMicroseconds (n : UInt64) : Duration where
  seconds := n / 1000000
  nanoseconds := .ofNat (n.toNat % 1000000 * 1000)
  nanoseconds_lt := by
    have h : n.toNat % 1000000 * 1000 < 1000000000 := by omega
    rw [UInt32.toNat_ofNat']
    exact Nat.lt_of_le_of_lt (Nat.mod_le _ _) h

/-- The span of a number of milliseconds. -/
def ofMilliseconds (n : UInt64) : Duration := ofMicroseconds (1000 * n)

/-- The span as whole microseconds, rounded down. They take more than 64 bits
for spans that are long enough. -/
def wideMicroseconds (d : Duration) : BitVec 128 :=
  d.seconds.toBitVec.setWidth 128 * 1000000 + (d.nanoseconds / 1000).toBitVec.setWidth 128

/-- The span as whole microseconds in 64 bits, or the largest number of these
where there are more. -/
def microseconds (d : Duration) : UInt64 :=
  if d.wideMicroseconds.toNat < UInt64.size then .ofBitVec (d.wideMicroseconds.setWidth 64)
  else .ofNat (UInt64.size - 1)

/-- The span of a number of nanoseconds that has its seconds in 64 bits. -/
def ofNanoseconds (n : Nat) : Duration where
  seconds := .ofNat (n / 1000000000)
  nanoseconds := .ofNat (n % 1000000000)
  nanoseconds_lt := by
    rw [UInt32.toNat_ofNat']
    exact Nat.lt_of_le_of_lt (Nat.mod_le _ _) (Nat.mod_lt _ (by decide))

/-- The span from one time to another, which is zero if the other is earlier. -/
def since (now before : Duration) : Duration :=
  ofNanoseconds (now.totalNanoseconds - before.totalNanoseconds)

/-- The number of seconds. The seconds, the nanoseconds, the part of a second that
these are and the sum of both are rounded, one after the other. -/
def asSeconds (d : Duration) : Single :=
  (Single.ofInt d.seconds.toNat).add ((Single.ofInt d.nanoseconds.toNat).div .billion)

/-- The span of seconds and nanoseconds, of which a whole second or more is
carried over. Nothing where the seconds leave 64 bits. -/
def make? (seconds : UInt64) (nanoseconds : UInt32) : Option Duration :=
  if nanoseconds.toNat / 1000000000 + seconds.toNat < UInt64.size then
    some
      { seconds := seconds + (nanoseconds / 1000000000).toUInt64
        nanoseconds := nanoseconds % 1000000000
        nanoseconds_lt := by
          rw [UInt32.toNat_mod]
          exact Nat.mod_lt _ (by decide) }
  else none

end Duration

end Servo
