/-
Reads a TOML document.

Nothing is read twice: each construct is told by its first characters. Values
nest up to a depth, which the readers of values carry as the room that is
left; their bound on the number of parts is the number of characters, which no
document reaches, since every part has a character of its own.

A line of a document is a header, a key with its value, or blank, and each may
end in a comment. Between the brackets of an array and the braces of an inline
table, lines and comments count as blanks, but not inside a key.
-/
import Servo.Toml.Literal
import Servo.Toml.Reader.Text
import Servo.Toml.Document

namespace Servo.Toml

/-- How deep arrays and inline tables nest in each other, and how many parts a
key has, at most. -/
def maxDepth : Nat := 80

namespace Reader

-- ================================================================ keys

/-- One part of a key. -/
def keyPart : Reader String := do
  match ← peek with
  | some '"' | some '\'' => lineText
  | _ =>
    let cs ← takeAll isBare
    if cs.isEmpty then failure
    return String.ofList cs

/-- The parts of a key after those it has, and blanks; `room` more parts fit. -/
def keyRest (room : Nat) : Reader (List String) := do
  blanks
  if ← optionally '.' then
    match room with
    | 0 => failure
    | room + 1 =>
      blanks
      let part ← keyPart
      return part :: (← keyRest room)
  else return []

/-- A key, all its parts. -/
def key : Reader (List String) := do
  let part ← keyPart
  return part :: (← keyRest (maxDepth - 1))

-- ============================================================== values

mutual

/-- A value; `room` more collections can be opened in each other. -/
def value (bound room : Nat) : Reader Value := do
  match bound with
  | 0 => failure
  | bound + 1 =>
    match ← peek, room with
    | some '"', _ | some '\'', _ => return .text (← text)
    | some '[', room + 1 =>
      char '['
      return .array (← items bound room)
    | some '\x7b', room + 1 =>
      char '\x7b'
      return .table (Tree.toTable (← pairs bound room []))
    | _, _ => literal

/-- The items of an array and its closing bracket. -/
def items (bound room : Nat) : Reader (List Value) := do
  match bound with
  | 0 => failure
  | bound + 1 =>
    space
    if ← optionally ']' then return []
    let item ← value bound room
    space
    if ← optionally ',' then return item :: (← items bound room)
    char ']'
    return [item]

/-- The pairs of an inline table, added to `branch`, and its closing brace. -/
def pairs (bound room : Nat) (branch : Branch) : Reader Branch := do
  match bound with
  | 0 => failure
  | bound + 1 =>
    space
    if ← optionally '\x7d' then return branch
    let path ← key
    space
    char '='
    space
    let v ← value bound room
    let branch ← Branch.insert v path branch
    space
    if ← optionally ',' then return ← pairs bound room branch
    char '\x7d'
    return branch

end

-- =========================================================== documents

/-- A header, from its opening bracket on. -/
def header (d : Document) : Reader Document := do
  char '['
  let element ← optionally '['
  blanks
  let path ← key
  char ']'
  if element then
    char ']'
    d.startElement path
  else d.startTable path

/-- A key and its value. -/
def pair (d : Document) : Reader Document := do
  let bound := (← get).length + 1
  let path ← key
  char '='
  blanks
  d.insert path (← value bound maxDepth)

/-- The lines of a document. -/
def lines (bound : Nat) (d : Document) : Reader Document := do
  match bound with
  | 0 => failure
  | bound + 1 =>
    space
    match ← peek with
    | none => return d
    | some '[' =>
      let d ← header d
      lineEnd
      lines bound d
    | some _ =>
      let d ← pair d
      lineEnd
      lines bound d

end Reader

/-- The table that a text spells, if it is a document. A byte order mark in
front is skipped. -/
def read? (text : String) : Option Table := do
  let cs := match text.toList with
    | '\ufeff' :: rest => rest
    | cs => cs
  let (d, _) ← (Reader.lines (cs.length + 1) .empty).run cs
  return d.toTable

end Servo.Toml
