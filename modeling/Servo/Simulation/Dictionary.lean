/-
The dictionary of a simulated slave: the bytes of each item, by address. An
address is listed once; where an item stands in the list has no meaning, and
`get?` is all there is to see.
-/
import Servo.Pdo

namespace Servo.Simulation

/-- The items of a dictionary. -/
structure Dictionary where
  items : List (Address × Bytes)
deriving DecidableEq, Repr, Inhabited

namespace Dictionary

/-- The bytes of an item, if there is one. -/
def get? (d : Dictionary) (a : Address) : Option Bytes := d.items.lookup a

/-- The items with one of them replaced, or added. -/
def putItem (a : Address) (data : Bytes) : List (Address × Bytes) → List (Address × Bytes)
  | [] => [(a, data)]
  | (b, old) :: rest => if a = b then (b, data) :: rest else (b, old) :: putItem a data rest

/-- The dictionary with the bytes of an item replaced, or the item added. -/
def put (d : Dictionary) (a : Address) (data : Bytes) : Dictionary := ⟨putItem a data d.items⟩

/-- The dictionary without any item of an index. -/
def erase (d : Dictionary) (index : UInt16) : Dictionary :=
  ⟨d.items.filter fun item => item.1.index ≠ index⟩

/-- Whether there is an item of an index. -/
def hasIndex (d : Dictionary) (index : UInt16) : Bool := d.items.any (·.1.index == index)

theorem lookup_putItem (a b : Address) (data : Bytes) (items : List (Address × Bytes)) :
    (putItem a data items).lookup b = if b = a then some data else items.lookup b := by
  induction items with
  | nil =>
    by_cases h : b = a
    · simp [putItem, h]
    · simp [putItem, List.lookup_cons, h, beq_false_of_ne h]
  | cons item rest ih =>
    obtain ⟨c, old⟩ := item
    by_cases hac : a = c
    · subst hac
      by_cases h : b = a
      · simp [putItem, h]
      · simp [putItem, List.lookup_cons, h, beq_false_of_ne h]
    · by_cases hbc : b = c
      · subst hbc
        have hba : ¬ b = a := fun h => hac h.symm
        simp [putItem, hac, hba]
      · simp [putItem, List.lookup_cons, hac, beq_false_of_ne hbc, ih]

/-- Writing an item changes that item alone. -/
theorem get?_put (d : Dictionary) (a b : Address) (data : Bytes) :
    (d.put a data).get? b = if b = a then some data else d.get? b :=
  lookup_putItem a b data d.items

-- =========================================================== mappings

/-- The first byte of an item, zero where there is none. -/
def byte (d : Dictionary) (a : Address) : UInt8 :=
  ((d.get? a).bind List.head?).getD 0

/-- The entries of a mapping object, as many as it says it has. -/
def mapping (d : Dictionary) (index : UInt16) : List Pdo.Entry :=
  (List.range (min (d.byte ⟨index, 0⟩).toNat Pdo.maxEntries)).map fun i =>
    let data := (d.get? ⟨index, .ofNat (i + 1)⟩).getD []
    ⟨.ofNat (Bytes.toNat (data.take 4))⟩

/-- The entries of all mappings that an assignment object lists. -/
def assigned (d : Dictionary) (assign : UInt16) : List Pdo.Entry :=
  (List.range (d.byte ⟨assign, 0⟩).toNat).flatMap fun i =>
    match d.get? ⟨assign, .ofNat (i + 1)⟩ with
    | some data => d.mapping (.ofNat (Bytes.toNat (data.take 2)))
    | none => []

/-- Sets a mapping object whatever it held; entries that are not given are zero. -/
def setMapping (d : Dictionary) (index : UInt16) (mapping : List Pdo.Entry) : Dictionary :=
  (List.range Pdo.maxEntries).foldl
    (fun d i => d.put ⟨index, .ofNat (i + 1)⟩ (Packed.bytes (mapping.getD i ⟨0⟩)))
    (d.put ⟨index, 0⟩ [.ofNat mapping.length])

/-- Sets an assignment object to list one mapping. -/
def setAssignment (d : Dictionary) (pdo : Pdo) : Dictionary :=
  (d.put ⟨pdo.assign, 0⟩ [1]).put ⟨pdo.assign, 1⟩ (Packed.bytes pdo.index)

/-- The parameters of a drive, with how many bytes each takes. -/
def parameters : List (Address × Nat) :=
  [(⟨0x6060, 0⟩, 1),
   (⟨0x6061, 0⟩, 1),
   (⟨0x6072, 0⟩, 2),
   (⟨0x6075, 0⟩, 4),
   (⟨0x6087, 0⟩, 4),
   (⟨0x608f, 1⟩, 4),
   (⟨0x608f, 2⟩, 4),
   (⟨0x60c2, 1⟩, 1),
   (⟨0x60c2, 2⟩, 1)]

/-- The dictionary that a drive is made with. -/
def initial : Dictionary :=
  let exchanged := [(Pdo.receive, Pdo.defaultReceive), (Pdo.transmit, Pdo.defaultTransmit)]
  let mapped := exchanged.foldl
    (fun d (pdo, mapping) => (d.setAssignment pdo).setMapping pdo.index mapping) ⟨[]⟩
  parameters.foldl (fun d (a, size) => d.put a (List.replicate size 0)) mapped

end Dictionary

end Servo.Simulation
