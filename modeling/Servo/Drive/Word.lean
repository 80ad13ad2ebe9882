/-
Sixteen bit words whose bits have names, such as the status word of a drive
and the control word sent to it.

A word keeps all its bits, the unnamed ones included: naming a bit gives a way
to test it and to change it, and changing one bit leaves the other fifteen.
The text of a word shows the marks of its bits in a fixed grid, a blank for
each letter of a mark whose bit is clear, so that two words written under each
other can be compared by eye.
-/

namespace Servo.Word

/-- Whether the bit at a position is set. -/
def test (word : UInt16) (position : UInt16) : Bool := (word >>> position) &&& 1 = 1

/-- The word with the bit at a position set or cleared. -/
def assign (word : UInt16) (position : UInt16) (value : Bool) : UInt16 :=
  if value then word ||| (1 <<< position) else word &&& ~~~(1 <<< position)

/-- A mark, or a blank for each of its letters. -/
def cell (marked : Bool × String) : String :=
  " " ++ if marked.1 then marked.2 else String.ofList (marked.2.toList.map fun _ => ' ')

/-- The grid of marks under a title. -/
def grid (title : String) (marks : List (Bool × String)) : String :=
  title ++ "\x7b" ++ String.join (marks.map cell) ++ "\x7d"

end Servo.Word
