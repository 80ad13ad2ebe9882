/-
The values that a TOML document spells. A table keeps its keys in the order of
the document and has no key twice.

No key of a configuration takes a number with a fraction, a date or a time, so
these are kept as they are written.
-/

namespace Servo.Toml

inductive Value
  | integer (n : Int)
  | boolean (b : Bool)
  | text (s : String)
  /-- A literal that is neither an integer nor a truth value. -/
  | other (literal : String)
  | array (items : List Value)
  | table (entries : List (String × Value))
deriving Repr, Inhabited

/-- The keys of a table with their values. -/
abbrev Table := List (String × Value)

end Servo.Toml
