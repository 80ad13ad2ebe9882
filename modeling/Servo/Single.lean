/-
Binary floating point numbers of 32 bits, in exact arithmetic.

A number is kept by its encoding, so that every one of the 2^32 patterns is a
value and passes through unchanged, the patterns that are not numbers
included. `classify` decodes a pattern to a fraction `mantissa * 2^exponent`;
`ofRatio` is the one place that rounds, to the nearest encoding and, of two
equally near ones, to the even one. Everything is computed in integers: an
operation finds the exact result for two fractions, and rounds it once.

`toInt16` cuts the fraction off and stops at the bounds of the integer type; a
pattern that is not a number gives zero.
-/

namespace Servo

/-- A binary floating point number of 32 bits. -/
structure Single where
  bits : UInt32
deriving DecidableEq, Repr, Inhabited

namespace Single

/-- What a pattern stands for. -/
inductive Class
  | notANumber
  | infinite (negative : Bool)
  /-- The number `± mantissa * 2^exponent`. -/
  | finite (negative : Bool) (mantissa : Nat) (exponent : Int)
deriving DecidableEq, Repr

def classify (x : Single) : Class :=
  let negative := x.bits >>> 31 = 1
  let exponent := (x.bits >>> 23) &&& 0xff
  let mantissa := x.bits &&& 0x7fffff
  if exponent = 0xff then
    if mantissa = 0 then .infinite negative else .notANumber
  else if exponent = 0 then .finite negative mantissa.toNat (-149)
  else .finite negative (mantissa.toNat + 0x800000) ((exponent.toNat : Int) - 150)

-- ============================================================ rounding

/-- The integer nearest to a quotient, the even one of two. -/
def nearestEven (n d : Nat) : Nat :=
  let q := n / d
  let r := 2 * (n % d)
  if r < d then q else if d < r then q + 1 else q + q % 2

/-- The numerator and the denominator of `n / d * 2^k`. -/
def scale (n d : Nat) (k : Int) : Nat × Nat :=
  if 0 ≤ k then (n <<< k.toNat, d) else (n, d <<< (-k).toNat)

/-- The exponent of the last bit that an encoding of `n / d` holds, when the
leading of its 24 bits is the leading bit of the quotient; numbers too small
for that share the lowest exponent. -/
def lastBit (n d : Nat) : Int :=
  let guess : Int := (n.log2 : Int) - d.log2
  let (up, down) := scale n d (-guess)
  max (-149) (guess - (if down ≤ up then 23 else 24))

/-- The pattern of a sign and a magnitude. -/
def ofMagnitude (negative : Bool) (magnitude : Nat) : Single :=
  ⟨UInt32.ofNat (min magnitude (0xff <<< 23)) ||| if negative then 0x80000000 else 0⟩

/-- The number nearest to `n / d`, with the given sign. A quotient beyond all
numbers is infinite. -/
def ofRatio (negative : Bool) (n d : Nat) : Single :=
  if n = 0 then ofMagnitude negative 0
  else
    let k := lastBit n d
    let (up, down) := scale n d (-k)
    ofMagnitude negative ((k + 149).toNat <<< 23 + nearestEven up down)

-- ========================================================== operations

/-- The integer, rounded. -/
def ofInt (i : Int) : Single := ofRatio (i < 0) i.natAbs 1

/-- The sign, as -1, 0 or 1. Nothing where the pattern is not a number. -/
def sign? (x : Single) : Option Int :=
  match x.classify with
  | .notANumber => none
  | .infinite negative => some (if negative then -1 else 1)
  | .finite negative mantissa _ =>
    some (if mantissa = 0 then 0 else if negative then -1 else 1)

def notANumber : Single := ⟨0x7fc00000⟩

def infinite (negative : Bool) : Single := ofMagnitude negative (0xff <<< 23)

/-- The fraction as a multiple of `2^low`, which is not above its exponent. -/
def aligned (low : Int) (negative : Bool) (mantissa : Nat) (exponent : Int) : Int :=
  let magnitude := mantissa <<< (exponent - low).toNat
  if negative then -magnitude else magnitude

/-- The sum, rounded. A sum of zero is negative only if both terms are. -/
def add (x y : Single) : Single :=
  match x.classify, y.classify with
  | .notANumber, _ | _, .notANumber => notANumber
  | .infinite s, .infinite t => if s = t then infinite s else notANumber
  | .infinite s, .finite .. | .finite .., .infinite s => infinite s
  | .finite s m e, .finite t m' e' =>
    let low := min e e'
    let sum := aligned low s m e + aligned low t m' e'
    let (n, d) := scale sum.natAbs 1 low
    ofRatio (if sum = 0 then s && t else sum < 0) n d

/-- The product, rounded. -/
def mul (x y : Single) : Single :=
  match x.classify, y.classify with
  | .notANumber, _ | _, .notANumber => notANumber
  | .infinite s, .infinite t => infinite (s != t)
  | .infinite s, .finite t m _ | .finite t m _, .infinite s =>
    if m = 0 then notANumber else infinite (s != t)
  | .finite s m e, .finite t m' e' =>
    let (n, d) := scale (m * m') 1 (e + e')
    ofRatio (s != t) n d

/-- The quotient, rounded. -/
def div (x y : Single) : Single :=
  match x.classify, y.classify with
  | .notANumber, _ | _, .notANumber => notANumber
  | .infinite _, .infinite _ => notANumber
  | .infinite s, .finite t _ _ => infinite (s != t)
  | .finite s _ _, .infinite t => ofMagnitude (s != t) 0
  | .finite s m e, .finite t m' e' =>
    if m' = 0 then if m = 0 then notANumber else infinite (s != t)
    else
      let (n, d) := scale m m' (e - e')
      ofRatio (s != t) n d

/-- The integer part, at the bound where it lies beyond. -/
def toInt16 (x : Single) : Int16 :=
  let bound (negative : Bool) : Nat := if negative then 32768 else 32767
  let value (negative : Bool) (magnitude : Nat) : Int16 :=
    .ofInt (if negative then -(magnitude : Int) else magnitude)
  match x.classify with
  | .notANumber => 0
  | .infinite negative => value negative (bound negative)
  | .finite negative m e =>
    let (n, d) := scale m 1 e
    value negative (min (n / d) (bound negative))

def zero : Single := ⟨0⟩

/-- The number 1000. -/
def thousand : Single := ⟨0x447a0000⟩

/-- The number 1000000000. -/
def billion : Single := ⟨0x4e6e6b28⟩

end Single

end Servo
