/-
Numbers in base sixteen, as diagnostics write them: lowercase digits, either
as many as the number needs or filled up with zeros to a width. A width never
cuts digits off.
-/

namespace Servo.Hex

/-- The digit of a value below sixteen. -/
def digit (n : Nat) : Char :=
  if n < 10 then Char.ofNat (48 + n) else Char.ofNat (87 + n)

/-- The digits of a number, as many as it needs and at least one. -/
def digits (n : Nat) : List Char := Nat.toDigits 16 n

/-- The number in base sixteen. -/
def text (n : Nat) : String := String.ofList (digits n)

/-- The number in base sixteen, filled up with zeros to at least `width` digits. -/
def padded (width n : Nat) : String :=
  let ds := digits n
  String.ofList (List.replicate (width - ds.length) '0' ++ ds)

/-- The digits of a byte string, two for each byte. -/
def ofBytes (bytes : List UInt8) : String :=
  String.ofList (bytes.flatMap fun b => [digit (b.toNat / 16), digit (b.toNat % 16)])

/-- The value of a digit, in either case. -/
def value? (c : Char) : Option Nat :=
  if '0' ≤ c ∧ c ≤ '9' then some (c.toNat - 48)
  else if 'a' ≤ c ∧ c ≤ 'f' then some (c.toNat - 87)
  else if 'A' ≤ c ∧ c ≤ 'F' then some (c.toNat - 55)
  else none

/-- The byte string that pairs of digits spell, if there is nothing else. -/
def toBytes? : List Char → Option (List UInt8)
  | [] => some []
  | h :: l :: rest => do
    let high ← value? h
    let low ← value? l
    let bytes ← toBytes? rest
    return UInt8.ofNat (16 * high + low) :: bytes
  | [_] => none

end Servo.Hex
