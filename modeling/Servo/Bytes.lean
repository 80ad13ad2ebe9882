/-
Byte strings, and the little endian numbers in them.

A byte string is a list of bytes: splitting, joining and cutting it are then
the list operations, and every law below is a law of lists. `ofNat` and
`toNat` are the two directions of the little endian encoding; they are inverse
to each other at the width of the string (`toNat_ofNat`, `ofNat_toNat`), so no
number has two encodings of one width.

`window` and `splice` read and replace a run of bytes inside a longer string.
Replacing keeps the length and all that lies outside the run
(`length_splice`, `window_splice`), which is what lets several values share
one image.
-/

namespace Servo

/-- A byte string: an image, the data of an object, a payload. -/
abbrev Bytes := List UInt8

namespace Bytes

-- ============================================== little endian numbers

/-- The `width` low bytes of a number, the least significant first. -/
def ofNat : (width : Nat) → (n : Nat) → Bytes
  | 0, _ => []
  | width + 1, n => UInt8.ofNat n :: ofNat width (n / 256)

/-- The number a byte string spells, the least significant byte first. -/
def toNat : Bytes → Nat
  | [] => 0
  | b :: rest => b.toNat + 256 * toNat rest

/-- The first number that `width` bytes do not hold. -/
def limit : (width : Nat) → Nat
  | 0 => 1
  | width + 1 => 256 * limit width

@[simp] theorem length_ofNat (width n : Nat) : (ofNat width n).length = width := by
  induction width generalizing n with
  | zero => rfl
  | succ width ih => simp [ofNat, ih]

theorem toNat_lt (bytes : Bytes) : toNat bytes < limit bytes.length := by
  induction bytes with
  | nil => simp [toNat, limit]
  | cons b rest ih =>
    have hb : b.toNat < 256 := b.toNat_lt
    simp only [toNat, List.length_cons, limit]
    omega

/-- A number that fits the width is read back from its encoding. -/
theorem toNat_ofNat {width n : Nat} (h : n < limit width) : toNat (ofNat width n) = n := by
  induction width generalizing n with
  | zero =>
    simp only [limit] at h
    simp only [ofNat, toNat]
    omega
  | succ width ih =>
    have hq : n / 256 < limit width := by
      simp only [limit] at h
      omega
    simp only [ofNat, toNat, ih hq, UInt8.toNat_ofNat']
    omega

/-- Every byte string is the encoding of the number it spells. -/
theorem ofNat_toNat (bytes : Bytes) : ofNat bytes.length (toNat bytes) = bytes := by
  induction bytes with
  | nil => rfl
  | cons b rest ih =>
    have hb : b.toNat < 256 := b.toNat_lt
    have hq : (b.toNat + 256 * toNat rest) / 256 = toNat rest := by omega
    simp only [List.length_cons, ofNat, toNat, hq, ih]
    congr 1
    apply UInt8.toNat_inj.1
    simp only [UInt8.toNat_ofNat']
    omega

-- ============================================== runs inside a string

/-- The `len` bytes from `start` on, fewer where the string ends before. -/
def window (bytes : Bytes) (start len : Nat) : Bytes := (bytes.drop start).take len

/-- The string with the run from `start` on replaced by `new`. -/
def splice (bytes : Bytes) (start : Nat) (new : Bytes) : Bytes :=
  bytes.take start ++ new ++ bytes.drop (start + new.length)

/-- The head of `bytes` replaced by as much of `new` as there is room for. -/
def overwrite (bytes new : Bytes) : Bytes :=
  new.take bytes.length ++ bytes.drop new.length

/-- The first `len` bytes, filled up with zeros. -/
def fit (len : Nat) (bytes : Bytes) : Bytes :=
  bytes.take len ++ List.replicate (len - bytes.length) 0

@[simp] theorem length_overwrite (bytes new : Bytes) :
    (overwrite bytes new).length = bytes.length := by
  simp only [overwrite, List.length_append, List.length_take, List.length_drop]
  omega

@[simp] theorem length_fit (len : Nat) (bytes : Bytes) : (fit len bytes).length = len := by
  simp only [fit, List.length_append, List.length_take, List.length_replicate]
  omega

theorem toNat_zeros (n : Nat) : toNat (List.replicate n 0) = 0 := by
  induction n with
  | zero => rfl
  | succ n ih => simp [List.replicate_succ, toNat, ih]

/-- Filling up with zeros does not change the number. -/
theorem toNat_fit {len : Nat} {bytes : Bytes} (h : bytes.length ≤ len) :
    toNat (fit len bytes) = toNat bytes := by
  have hfill (n : Nat) : toNat (bytes ++ List.replicate n 0) = toNat bytes := by
    induction bytes with
    | nil => exact toNat_zeros n
    | cons b rest ih => simp [toNat, ih (Nat.le_of_succ_le h)]
  rw [fit, List.take_of_length_le h, hfill]

theorem length_window {bytes : Bytes} {start len : Nat} (h : start + len ≤ bytes.length) :
    (window bytes start len).length = len := by
  simp only [window, List.length_take, List.length_drop]
  omega

/-- A replacement inside the string keeps its length. -/
theorem length_splice {bytes new : Bytes} {start : Nat}
    (h : start + new.length ≤ bytes.length) :
    (splice bytes start new).length = bytes.length := by
  simp only [splice, List.length_append, List.length_take, List.length_drop]
  omega

/-- The replaced run reads as what it was replaced by. -/
theorem window_splice {bytes new : Bytes} {start : Nat} (h : start ≤ bytes.length) :
    window (splice bytes start new) start new.length = new := by
  have hlen : (bytes.take start).length = start := by simp [h]
  simp only [window, splice, List.append_assoc]
  rw [List.drop_append, hlen, Nat.sub_self, List.drop_of_length_le (by omega)]
  simp

end Bytes

end Servo
