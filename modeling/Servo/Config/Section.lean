/-
Records that are written as tables: each field has a key, a way to read it
from a value, and a way to write it.

A section is a list of such keys. `overlay` replaces exactly the fields whose
keys a table has, and refuses the table if it has another key or a value that
a field does not take; `toTable` writes every field. A section can also be
given as an array, whose items are the values of the fields in the order of
the keys: those that are missing keep what they had, and those beyond the last
field are not looked at.
-/
import Servo.Toml.Value

namespace Servo

/-- A field of a record as it is found in a table. -/
structure Key (σ : Type) where
  name : String
  /-- The record with the field replaced, if the value is one of the field. -/
  read : Toml.Value → σ → Option σ
  /-- The value of the field. -/
  write : σ → Toml.Value

namespace Section

variable {σ : Type}

/-- The key of a name, if there is one. -/
def key? (keys : List (Key σ)) (name : String) : Option (Key σ) :=
  keys.find? (·.name == name)

/-- The record with the fields of a table replaced. -/
def overlay (keys : List (Key σ)) : Toml.Table → σ → Option σ
  | [], record => some record
  | (name, value) :: rest, record => do
    let key ← key? keys name
    overlay keys rest (← key.read value record)

/-- The record with its first fields replaced by the items of an array. -/
def overlayItems : List (Key σ) → List Toml.Value → σ → Option σ
  | key :: keys, value :: rest, record => do
    overlayItems keys rest (← key.read value record)
  | _, _, record => some record

/-- The record with the fields of a table or an array replaced. -/
def read (keys : List (Key σ)) : Toml.Value → σ → Option σ
  | .table entries, record => overlay keys entries record
  | .array items, record => overlayItems keys items record
  | _, _ => none

/-- The record as a table. -/
def toTable (keys : List (Key σ)) (record : σ) : Toml.Table :=
  keys.map fun key => (key.name, key.write record)

end Section

namespace Key

variable {σ : Type}

/-- A truth value. -/
def truth (name : String) (get : σ → Bool) (set : Bool → σ → σ) : Key σ where
  name := name
  read
    | .boolean b, record => some (set b record)
    | _, _ => none
  write record := .boolean (get record)

/-- An integer of a range. -/
def number (name : String) (low high : Int) (get : σ → Int) (set : Int → σ → σ) : Key σ where
  name := name
  read
    | .integer n, record => if low ≤ n ∧ n ≤ high then some (set n record) else none
    | _, _ => none
  write record := .integer (get record)

/-- An integer that is not negative and below `size`. -/
def word (name : String) (size : Nat) (get : σ → Nat) (set : Nat → σ → σ) : Key σ :=
  number name 0 ((size : Int) - 1) (get ·) (fun n => set n.toNat)

/-- A list of integers that are not negative and below `size`. -/
def words (name : String) (size : Nat) (get : σ → List Nat) (set : List Nat → σ → σ) :
    Key σ where
  name := name
  read
    | .array items, record => do
      let ns ← items.mapM fun
        | .integer n => if 0 ≤ n ∧ n < (size : Int) then some n.toNat else none
        | _ => none
      return set ns record
    | _, _ => none
  write record := .array ((get record).map fun n : Nat => .integer n)

/-- A record of its own. -/
def group {τ : Type} (name : String) (keys : List (Key τ)) (get : σ → τ)
    (set : τ → σ → σ) : Key σ where
  name := name
  read value record := do return set (← Section.read keys value (get record)) record
  write record := .table (Section.toTable keys (get record))

end Key

end Servo
