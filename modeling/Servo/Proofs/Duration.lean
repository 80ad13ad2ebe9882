/-
Spans of time that are written and read back.

A span is known by the number of its nanoseconds (`totalNanoseconds_inj`), so whatever is read
back can be told from these alone. They go into 128 bits as microseconds without a loss but that
of the rounding (`toNat_wideMicroseconds`), and the split of a number into seconds and the rest
loses nothing at all (`totalNanoseconds_ofMicroseconds`). What is lost on the whole is what a span
has beyond microseconds, and what it has beyond the largest number of 64 bits
(`microseconds_roundTrip`).
-/
import Servo.Duration

namespace Servo.Duration

variable {d d' : Duration}

-- ========================================================== nanoseconds

theorem ext (hseconds : d.seconds = d'.seconds) (hnanoseconds : d.nanoseconds = d'.nanoseconds) :
    d = d' := by
  cases d
  cases d'
  cases hseconds
  cases hnanoseconds
  rfl

/-- No two spans have the same nanoseconds. -/
theorem totalNanoseconds_inj : d.totalNanoseconds = d'.totalNanoseconds ↔ d = d' := by
  constructor
  · intro h
    have hbelow := d.nanoseconds_lt
    have hbelow' := d'.nanoseconds_lt
    unfold totalNanoseconds at h
    apply ext
    · exact UInt64.toNat_inj.1 (by omega)
    · exact UInt32.toNat_inj.1 (by omega)
  · intro h
    rw [h]

-- ============================================================== writing

/-- No sum of seconds and nanoseconds leaves the 128 bits. -/
theorem toNat_wideMicroseconds (d : Duration) :
    d.wideMicroseconds.toNat = d.totalNanoseconds / 1000 := by
  have hseconds := d.seconds.toNat_lt
  have hnanoseconds := d.nanoseconds_lt
  have hwide : (d.seconds.toBitVec.setWidth 128).toNat = d.seconds.toNat :=
    BitVec.toNat_setWidth_of_le (by decide)
  have hmillion : (1000000 : BitVec 128).toNat = 1000000 := rfl
  have hwhole : (d.seconds.toBitVec.setWidth 128 * 1000000).toNat
      = d.seconds.toNat * 1000000 := by
    have hfits : (d.seconds.toBitVec.setWidth 128).toNat * (1000000 : BitVec 128).toNat
        < 2 ^ 128 := by
      rw [hwide, hmillion]
      omega
    rw [BitVec.toNat_mul_of_lt hfits, hwide, hmillion]
  have hrest : ((d.nanoseconds / 1000).toBitVec.setWidth 128).toNat
      = d.nanoseconds.toNat / 1000 :=
    (BitVec.toNat_setWidth_of_le (by decide)).trans (UInt32.toNat_div _ _)
  unfold wideMicroseconds totalNanoseconds
  rw [BitVec.toNat_add_of_lt, hwhole, hrest]
  · omega
  · rw [hwhole, hrest]
    omega

/-- A span is written rounded down, and never as more than the largest number. -/
theorem toNat_microseconds (d : Duration) :
    d.microseconds.toNat = min (d.totalNanoseconds / 1000) (UInt64.size - 1) := by
  have hwide := d.toNat_wideMicroseconds
  unfold microseconds
  by_cases hfits : d.wideMicroseconds.toNat < UInt64.size
  · rw [if_pos hfits, UInt64.toNat_ofBitVec, BitVec.toNat_setWidth, Nat.mod_eq_of_lt hfits, hwide]
    exact (Nat.min_eq_left (by omega)).symm
  · rw [if_neg hfits, Nat.min_eq_right (by omega)]
    rfl

-- The shortest span that is too long.
example : microseconds { seconds := 18446744073709, nanoseconds := 551616000 }
    = 18446744073709551615 := by decide

-- ============================================================== reading

/-- Neither part of a number of microseconds is too long for its place. -/
theorem totalNanoseconds_ofMicroseconds (n : UInt64) :
    (ofMicroseconds n).totalNanoseconds = 1000 * n.toNat := by
  have hseconds : (ofMicroseconds n).seconds.toNat = n.toNat / 1000000 := UInt64.toNat_div _ _
  have hnanoseconds : (ofMicroseconds n).nanoseconds.toNat = n.toNat % 1000000 * 1000 :=
    UInt32.toNat_ofNat_of_lt' <|
      Nat.lt_of_le_of_lt (show _ ≤ 999999 * 1000 by omega) (by decide)
  unfold totalNanoseconds
  rw [hseconds, hnanoseconds]
  omega

/-- A number is written as it was read. -/
theorem microseconds_ofMicroseconds (n : UInt64) : (ofMicroseconds n).microseconds = n := by
  apply UInt64.toNat_inj.1
  rw [toNat_microseconds, totalNanoseconds_ofMicroseconds, Nat.mul_div_cancel_left _ (by decide)]
  exact Nat.min_eq_left (Nat.le_sub_one_of_lt n.toNat_lt)

/-- What is left of a span that is written and read back. -/
theorem totalNanoseconds_ofMicroseconds_microseconds (d : Duration) :
    (ofMicroseconds d.microseconds).totalNanoseconds
      = 1000 * min (d.totalNanoseconds / 1000) (UInt64.size - 1) := by
  rw [totalNanoseconds_ofMicroseconds, toNat_microseconds]

-- ==================================================== whole microseconds

/-- The span without what it has beyond whole microseconds. -/
def roundedDown (d : Duration) : Duration where
  seconds := d.seconds
  nanoseconds := d.nanoseconds - d.nanoseconds % 1000
  nanoseconds_lt := by
    rw [UInt32.toNat_sub_of_le _ _ (UInt32.le_iff_toNat_le.2 (Nat.mod_le _ _))]
    exact Nat.lt_of_le_of_lt (Nat.sub_le _ _) d.nanoseconds_lt

theorem totalNanoseconds_roundedDown (d : Duration) :
    d.roundedDown.totalNanoseconds = 1000 * (d.totalNanoseconds / 1000) := by
  have hnanoseconds : d.roundedDown.nanoseconds.toNat
      = d.nanoseconds.toNat - d.nanoseconds.toNat % 1000 :=
    UInt32.toNat_sub_of_le _ _ (UInt32.le_iff_toNat_le.2 (Nat.mod_le _ _))
  unfold totalNanoseconds
  rw [hnanoseconds]
  show 1000000000 * d.seconds.toNat + _ = _
  omega

/-- The span is a whole number of microseconds, and one of 64 bits. -/
def Whole (d : Duration) : Prop :=
  1000 ∣ d.totalNanoseconds ∧ d.totalNanoseconds < 1000 * UInt64.size

/-- What is read back of a span is the span rounded down, unless it is too long. -/
theorem ofMicroseconds_microseconds_eq_roundedDown_iff :
    ofMicroseconds d.microseconds = d.roundedDown ↔ d.totalNanoseconds < 1000 * UInt64.size := by
  have hsize : UInt64.size = 2 ^ 64 := rfl
  rw [← totalNanoseconds_inj, totalNanoseconds_ofMicroseconds_microseconds,
    totalNanoseconds_roundedDown]
  omega

theorem ofMicroseconds_microseconds_eq_iff : ofMicroseconds d.microseconds = d ↔ d.Whole := by
  have hsize : UInt64.size = 2 ^ 64 := rfl
  rw [← totalNanoseconds_inj, totalNanoseconds_ofMicroseconds_microseconds]
  unfold Whole
  omega

theorem ofMicroseconds_microseconds (h : d.Whole) : ofMicroseconds d.microseconds = d :=
  ofMicroseconds_microseconds_eq_iff.2 h

/-- A span is written as its whole microseconds, or as the largest number of 64 bits where there
are more of them. A number is written as it was read. What is read back of a span is the span
rounded down to whole microseconds just if these are fewer than 2 ^ 64, and it is the span
itself just if that is a whole number of microseconds below 2 ^ 64. -/
theorem microseconds_roundTrip :
    (∀ d : Duration, d.microseconds.toNat = min (d.totalNanoseconds / 1000) (UInt64.size - 1))
      ∧ (∀ n : UInt64, (ofMicroseconds n).microseconds = n)
      ∧ (∀ d : Duration, ofMicroseconds d.microseconds = d.roundedDown
        ↔ d.totalNanoseconds < 1000 * UInt64.size)
      ∧ ∀ d : Duration, ofMicroseconds d.microseconds = d
        ↔ 1000 ∣ d.totalNanoseconds ∧ d.totalNanoseconds < 1000 * UInt64.size :=
  ⟨toNat_microseconds, microseconds_ofMicroseconds,
    fun _ => ofMicroseconds_microseconds_eq_roundedDown_iff,
    fun _ => ofMicroseconds_microseconds_eq_iff⟩

end Servo.Duration
