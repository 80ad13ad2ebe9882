/-
How the lines of a TOML document add up to one table.

Every table of a document is defined once. A header defines the table it
names, and creates the tables on the way to it without defining them; a dotted
key defines the tables on the way to its last part, and only dotted keys add
to those. An array of tables grows by one table with each of its headers, and
its last table is the one that later headers reach into. What a value spells
in one place, inline tables and arrays included, is closed.

A `Tree` keeps that history until the document is complete; `Tree.toValue` then
forgets it.
-/
import Servo.Toml.Value

namespace Servo.Toml

/-- How a table came to be. -/
inductive Origin
  /-- On the way to a table that a header names. -/
  | passed
  /-- On the way to the last part of a dotted key. -/
  | dotted
  /-- Named by a header. -/
  | headed
deriving DecidableEq, Repr

/-- A part of a document under construction. -/
inductive Tree
  | closed (value : Value)
  | table (origin : Origin) (children : List (String × Tree))
  | tables (elements : List (List (String × Tree)))

/-- The children of a table under construction. -/
abbrev Branch := List (String × Tree)

namespace Tree

mutual

/-- The value of a part of a document. -/
def toValue : Tree → Value
  | closed value => value
  | table _ children => .table (toTable children)
  | tables elements => .array (toTables elements)

/-- The table of its children. -/
def toTable : List (String × Tree) → Table
  | [] => []
  | (key, tree) :: rest => (key, tree.toValue) :: toTable rest

/-- The tables of an array of them. -/
def toTables : List (List (String × Tree)) → List Value
  | [] => []
  | children :: rest => .table (toTable children) :: toTables rest

end

end Tree

namespace Branch

/-- The branch with the child of a key replaced, or added at the end. -/
def put (branch : Branch) (key : String) (tree : Tree) : Branch :=
  match branch with
  | [] => [(key, tree)]
  | (k, t) :: rest => if k = key then (k, tree) :: rest else (k, t) :: put rest key tree

/-- Changes the table that a header's path leads to, creating what is missing
on the way. -/
def atHeader (change : Branch → Option Branch) : List String → Branch → Option Branch
  | [], branch => change branch
  | key :: path, branch =>
    match branch.lookup key with
    | none => return branch.put key (.table .passed (← atHeader change path []))
    | some (.table origin children) =>
      return branch.put key (.table origin (← atHeader change path children))
    | some (.tables elements) => do
      let last ← elements.getLast?
      return branch.put key (.tables (elements.dropLast ++ [← atHeader change path last]))
    | some (.closed _) => none

/-- Adds a value under a dotted key. -/
def insert (value : Value) : List String → Branch → Option Branch
  | [], _ => none
  | [key], branch =>
    match branch.lookup key with
    | none => some (branch.put key (.closed value))
    | some _ => none
  | key :: path, branch =>
    match branch.lookup key with
    | none => return branch.put key (.table .dotted (← insert value path []))
    | some (.table .headed _) | some (.tables _) | some (.closed _) => none
    | some (.table origin children) =>
      return branch.put key (.table origin (← insert value path children))

/-- Defines the table of a header. -/
def define (key : String) (branch : Branch) : Option Branch :=
  match branch.lookup key with
  | none => some (branch.put key (.table .headed []))
  | some (.table .passed children) => some (branch.put key (.table .headed children))
  | some _ => none

/-- Adds a table to the array of a header. -/
def extend (key : String) (branch : Branch) : Option Branch :=
  match branch.lookup key with
  | none => some (branch.put key (.tables [[]]))
  | some (.tables elements) => some (branch.put key (.tables (elements ++ [[]])))
  | some _ => none

end Branch

/-- A document as far as it was read: all of it, and the path of the header
that the next keys belong to. -/
structure Document where
  root : Branch
  header : List String

namespace Document

def empty : Document := ⟨[], []⟩

/-- Starts the table that a header names. -/
def startTable (d : Document) (path : List String) : Option Document := do
  let key ← path.getLast?
  return ⟨← Branch.atHeader (Branch.define key) path.dropLast d.root, path⟩

/-- Starts the next table of the array that a header names. -/
def startElement (d : Document) (path : List String) : Option Document := do
  let key ← path.getLast?
  return ⟨← Branch.atHeader (Branch.extend key) path.dropLast d.root, path⟩

/-- Adds a value under a key of the current table. -/
def insert (d : Document) (path : List String) (value : Value) : Option Document := do
  return ⟨← Branch.atHeader (Branch.insert value path) d.header d.root, d.header⟩

def toTable (d : Document) : Table := Tree.toTable d.root

end Document

end Servo.Toml
