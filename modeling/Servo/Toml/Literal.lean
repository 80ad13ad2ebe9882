/-
The literals of a TOML document: values that are neither texts in quotes nor
collections.

An integer is decimal with an optional sign and no leading zero, or has one of
three bases, named by a lowercase letter after a zero, and no sign. A float has
a fraction, an exponent or both. In a number, one underscore may stand between
two digits.

A literal is an integer only if it spells one. There are literals that have
the shape of an integer and spell none; a document may hold them where nothing
asks for their value.
-/
import Servo.Toml.Value
import Servo.Toml.Moment

namespace Servo.Toml.Literal

open Reader

/-- The text after a sign, if there is one. -/
def unsigned : List Char → List Char
  | '+' :: cs | '-' :: cs => cs
  | cs => cs

/-- Whether each underscore stands between digits; `after` tells whether the
last character was a digit. -/
def separated (digit : Char → Bool) (after : Bool) : List Char → Bool
  | [] => true
  | ['_'] => false
  | '_' :: c :: rest => after && digit c && separated digit true rest
  | c :: rest => separated digit (digit c) rest

-- =========================================================== integers

/-- The number that digits go on to spell after `value`; `after` tells whether
the last character was a digit, which an underscore must follow and which must
be last. -/
def digitsFrom (base : Nat) (value : Nat) (after : Bool) : List Char → Option Nat
  | [] => if after then some value else none
  | '_' :: rest => if after then digitsFrom base value false rest else none
  | c :: rest => do digitsFrom base (base * value + (← digit? base c)) true rest

/-- The number that a run of digits spells. -/
def natural? (base : Nat) (cs : List Char) : Option Nat := digitsFrom base 0 false cs

/-- A decimal number, without a leading zero unless that is all of it. -/
def decimal? : List Char → Option Nat
  | ['0'] => some 0
  | '0' :: _ => none
  | cs => natural? 10 cs

/-- An integer in any of its forms. -/
def integer? : List Char → Option Int
  | '0' :: 'x' :: cs => (natural? 16 cs).map Int.ofNat
  | '0' :: 'o' :: cs => (natural? 8 cs).map Int.ofNat
  | '0' :: 'b' :: cs => (natural? 2 cs).map Int.ofNat
  | '+' :: cs => (decimal? cs).map Int.ofNat
  | '-' :: cs => (decimal? cs).map fun n => -(n : Int)
  | cs => (decimal? cs).map Int.ofNat

/-- Whether a literal has the shape of an integer. After a base there need be
no digit. A decimal literal with an underscore is only looked at around its
underscores, and there the digits of every base are taken for digits. -/
def isNumeral : List Char → Bool
  | ['0', 'x'] | ['0', 'o'] | ['0', 'b'] => true
  | cs =>
    let number := unsigned cs
    let rest := number.dropWhile (isDigit 10)
    number.head? ≠ some '0' && rest.head? = some '_'
      && !rest.any (fun c => c = ' ' || c = '.' || c = 'e' || c = 'E')
      && separated (isDigit 16) false number

-- ============================================================= floats

/-- Digits and underscores, with one digit at least. -/
def run : Reader (List Char) := do
  let cs ← takeAll fun c => isDigit 10 c || c = '_'
  let digits := cs.filter (isDigit 10)
  if digits.isEmpty then failure
  return cs

/-- The part of a float in front of its fraction and its exponent. -/
def whole : Reader Unit := do
  let cs ← run
  let digits := cs.filter (isDigit 10)
  if cs.head? = some '0' ∧ 1 < digits.length then failure

/-- A float without its sign. -/
def magnitude : Reader Unit := do
  whole
  if ← optionally '.' then discard run
  match ← peek with
  | some 'e' | some 'E' =>
    discard next
    match ← peek with
    | some '+' | some '-' => discard next
    | _ => pure ()
    discard run
  | _ => return

/-- Whether a literal is a float. -/
def isFloat (cs : List Char) : Bool :=
  let number := unsigned cs
  number = "inf".toList || number = "nan".toList
    || (accepts magnitude number && separated (isDigit 10) false number)

-- ============================================================= values

/-- The value of a literal. -/
def value? (cs : List Char) : Option Value :=
  if cs = "true".toList then some (.boolean true)
  else if cs = "false".toList then some (.boolean false)
  else
    match integer? cs with
    | some n => some (.integer n)
    | none =>
      if isNumeral cs || isFloat cs || Moment.isMoment cs then
        some (.other (String.ofList cs))
      else none

/-- A character that ends a literal. -/
def isEnd (c : Char) : Bool :=
  isBlank c || c ∈ ['=', ',', '[', ']', '\x7b', '\x7d', '#', '\r', '\n']

/-- Whether a literal goes on after blanks with the next character of a text. -/
def goesOn (cs : List Char) : Bool :=
  match cs with
  | [] => false
  | c :: _ => !isEnd c && c ≠ '.' && c ≠ '"' && c ≠ '\''

/-- The literal in front of a text, and what follows it. Blanks belong to it
if it goes on after them. -/
def split : List Char → List Char × List Char
  | [] => ([], [])
  | c :: rest =>
    if !isEnd c || (isBlank c && goesOn (rest.dropWhile isBlank)) then
      let (literal, rest) := split rest
      (c :: literal, rest)
    else ([], c :: rest)

end Servo.Toml.Literal

namespace Servo.Toml.Reader

/-- A value without quotes and brackets. -/
def literal : Reader Value := do
  let (literal, rest) := Literal.split (← get)
  set rest
  Literal.value? literal

end Servo.Toml.Reader
