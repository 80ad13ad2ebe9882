/-
Texts in quotes.

A text stands between double quotes, where a backslash starts an escape, or
between single quotes, where every character stands for itself. With one quote
at each end it is part of a line. With three it can have line ends: one right
after the opening is not part of it, and a backslash at the end of a line
joins the line with the next character that is not blank.
-/
import Servo.Toml.Reader.Basic

namespace Servo.Toml.Reader

/-- How a text is quoted. -/
structure Quote where
  mark : Char
  /-- Whether a backslash starts an escape. -/
  escapes : Bool
  /-- Whether three marks stand at each end and lines may end between them. -/
  tripled : Bool

/-- The number of marks at each end. -/
def Quote.width (q : Quote) : Nat := if q.tripled then 3 else 1

/-- How a text that starts with a character is quoted, if it is. -/
def Quote.ofMark? : Char → Option Quote
  | '"' => some ⟨'"', true, false⟩
  | '\'' => some ⟨'\'', false, false⟩
  | _ => none

-- ============================================================ escapes

/-- The character of a number, if it is one. -/
def scalar? (n : Nat) : Option Char :=
  if n.isValidChar then some (Char.ofNat n) else none

/-- The character that as many base-sixteen digits name. -/
def hexScalar (width : Nat) : Reader Char := do scalar? (← number 16 width 0)

/-- What an escape stands for; its backslash is already taken. -/
def escape : Reader Char := do
  match ← next with
  | 'b' => return '\x08'
  | 't' => return '\t'
  | 'n' => return '\n'
  | 'f' => return '\x0c'
  | 'r' => return '\r'
  | 'e' => return '\x1b'
  | '"' => return '"'
  | '\\' => return '\\'
  | 'x' => hexScalar 2
  | 'u' => hexScalar 4
  | 'U' => hexScalar 8
  | _ => failure

/-- Takes the end of a line if it is next, and tells whether it was. -/
def newline : Reader Bool := do
  match ← get with
  | '\n' :: rest | '\r' :: '\n' :: rest => do set rest; return true
  | _ => return false

/-- The text after blanks and line ends. -/
def afterLines : List Char → List Char
  | '\n' :: rest => afterLines rest
  | '\r' :: '\n' :: rest => afterLines rest
  | c :: rest => if isBlank c then afterLines rest else c :: rest
  | [] => []

-- ============================================================== texts

/-- Takes the marks that end a text, if they are next, and gives the marks in
front of them, which belong to the text. Up to two marks more than the end
needs can be next to it. -/
def Quote.closing (q : Quote) : Reader (Option (List Char)) := do
  let cs ← get
  let most := if q.tripled then 5 else 1
  let marks := (cs.take most).takeWhile (· = q.mark)
  if marks.length < q.width then return none
  set (cs.drop marks.length)
  return some (marks.drop q.width)

/-- The next characters of a text that has not ended. -/
def Quote.piece (q : Quote) : Reader (List Char) := do
  if q.tripled then
    if ← newline then return ['\n']
  let c ← next
  if q.escapes && c = '\\' then
    let atLineEnd := (← peek).any fun c => isBlank c || c = '\n' || c = '\r'
    if q.tripled && atLineEnd then
      blanks
      if ← newline then
        modify afterLines
        return []
      else failure
    else return [← escape]
  else if isPlain c then return [c]
  else failure

/-- The characters of a text after its opening. Every piece takes a character,
so `bound`, which is greater than the number of characters, is never reached. -/
def Quote.body (q : Quote) : Nat → Reader (List Char)
  | 0 => failure
  | bound + 1 => do
    match ← q.closing with
    | some marks => return marks
    | none =>
      let piece ← q.piece
      return piece ++ (← q.body bound)

/-- A text, from its opening on. -/
def Quote.text (q : Quote) : Reader String := do
  (List.replicate q.width q.mark).forM char
  if q.tripled then discard newline
  let cs ← q.body ((← get).length + 1)
  return String.ofList cs

/-- A text in quotes that is part of a line. -/
def lineText : Reader String := do
  let some mark ← peek | failure
  (← Quote.ofMark? mark).text

/-- A text in quotes, with three at each end if three are next. -/
def text : Reader String := do
  let some mark ← peek | failure
  let q ← Quote.ofMark? mark
  let tripled := (← get).take 3 = List.replicate 3 mark
  ({ q with tripled } : Quote).text

end Servo.Toml.Reader
