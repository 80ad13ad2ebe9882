/-
Readers, and the characters that they tell apart.

A reader takes characters from the front of a text and gives a result with the
characters that are left, or fails. Between the parts of a document stand
blanks; where lines may end between them, line ends and comments count as
blanks.
-/

namespace Servo.Toml

-- ========================================================= characters

def isBlank (c : Char) : Bool := c = ' ' || c = '\t'

/-- A character that a comment or a text in quotes can hold as it is. -/
def isPlain (c : Char) : Bool := c = '\t' || (' ' ≤ c && c ≠ '\x7f')

/-- A character of a key without quotes. -/
def isBare (c : Char) : Bool :=
  ('a' ≤ c && c ≤ 'z') || ('A' ≤ c && c ≤ 'Z') || ('0' ≤ c && c ≤ '9') || c = '_' || c = '-'

/-- The value of a digit in a base up to sixteen. -/
def digit? (base : Nat) (c : Char) : Option Nat :=
  let v? :=
    if '0' ≤ c ∧ c ≤ '9' then some (c.toNat - 48)
    else if 'a' ≤ c ∧ c ≤ 'f' then some (c.toNat - 87)
    else if 'A' ≤ c ∧ c ≤ 'F' then some (c.toNat - 55)
    else none
  v?.filter (· < base)

/-- A digit of a base. -/
def isDigit (base : Nat) (c : Char) : Bool := (digit? base c).isSome

-- ============================================================ readers

/-- Takes characters from the front of a text. -/
abbrev Reader := StateT (List Char) Option

namespace Reader

/-- The next character, if there is one; it is not taken. -/
def peek : Reader (Option Char) := return (← get).head?

/-- Takes the next character. -/
def next : Reader Char := do
  match ← get with
  | c :: rest =>
    set rest
    return c
  | [] => failure

/-- Takes the given character. -/
def char (c : Char) : Reader Unit := do
  if c ≠ (← next) then failure

/-- Takes the given character if it is next, and tells whether it was. -/
def optionally (c : Char) : Reader Bool := do
  match ← get with
  | d :: rest => if c = d then do set rest; return true else return false
  | [] => return false

/-- Takes all characters in front that have a property. -/
def takeAll (p : Char → Bool) : Reader (List Char) := do
  let cs ← get
  set (cs.dropWhile p)
  return cs.takeWhile p

/-- Takes as many digits of a base, and gives the number that they spell. -/
def number (base : Nat) : Nat → Nat → Reader Nat
  | 0, value => return value
  | width + 1, value => do number base width (base * value + (← digit? base (← next)))

/-- Whether a reader takes the whole of a text. -/
def accepts (r : Reader Unit) (cs : List Char) : Bool :=
  match r.run cs with
  | some ((), []) => true
  | _ => false

-- ============================================================= blanks

/-- Takes blanks. -/
def blanks : Reader Unit := do discard (takeAll isBlank)

/-- The text after blanks, line ends and comments; `comment` tells whether a
comment has begun. Nothing if a character is out of place. -/
def afterSpace (comment : Bool) : List Char → Option (List Char)
  | [] => some []
  | '\n' :: rest => afterSpace false rest
  | '\r' :: '\n' :: rest => afterSpace false rest
  | c :: rest =>
    if comment then if isPlain c then afterSpace true rest else none
    else if isBlank c then afterSpace false rest
    else if c = '#' then afterSpace true rest
    else some (c :: rest)

/-- Takes blanks, line ends and comments. -/
def space : Reader Unit := do set (← afterSpace false (← get))

/-- Takes what may stand at the end of a line, and the end. -/
def lineEnd : Reader Unit := do
  blanks
  if ← optionally '#' then discard (takeAll isPlain)
  match ← get with
  | [] | '\n' :: _ | '\r' :: '\n' :: _ => return
  | _ => failure

end Reader

end Servo.Toml
