/-
Which requests the programs of a bring-up can make, whatever the bus answers.

The requests of a bus fall into parts, and most programs keep to one part and one
slave (`Concerns`): bringing a slave to a state asks for nothing but states of that
slave. A negotiation reads items of its dictionary, and writes none but those of two
objects (`Negotiation.only_negotiate`). That is said of the program (`Program.Only`),
so it holds of every run of it; in particular none of them closes the bus.
-/
import Servo.Bringup
import Servo.Proofs.Trace

namespace Servo

-- =============================================================== parts

namespace Bus

/-- What a request is about. -/
inductive Part
  /-- The segment as a whole. -/
  | segment
  /-- The states of slaves. -/
  | states
  /-- The process image. -/
  | image
  /-- The dictionaries of slaves. -/
  | dictionary
  | close
deriving DecidableEq, Repr

def Request.part : Request → Part
  | init _ | discover | clocks | map => .segment
  | setState _ _ | state _ | clearAl _ => .states
  | exchange | outputs _ | setOutputs _ _ | inputs _ => .image
  | sdoRead _ _ _ | sdoWrite _ _ _ => .dictionary
  | close => .close

/-- The slave that a request names, if it names one. -/
def Request.slave? : Request → Option UInt16
  | init _ | discover | clocks | map | exchange | close => none
  | setState slave _ | state slave | clearAl slave | sdoRead slave _ _ | sdoWrite slave _ _
  | outputs slave | setOutputs slave _ | inputs slave => some slave

/-- The requests are all about one part. -/
abbrev Within (part : Part) {α : Type} (p : BusProgram α) : Prop :=
  p.Only fun r : Request => r.part = part

/-- The requests are all about one part of one slave. -/
abbrev Concerns (part : Part) (slave : UInt16) {α : Type} (p : BusProgram α) : Prop :=
  p.Only fun r : Request => r.part = part ∧ r.slave? = some slave

variable {part : Part} {slave : UInt16} {r : Request}

theorem within_perform (h : r.part = part) : Within part (perform r) :=
  ⟨h, fun _ => trivial⟩

theorem concerns_perform (hpart : r.part = part) (hslave : r.slave? = some slave) :
    Concerns part slave (perform r) :=
  ⟨⟨hpart, hslave⟩, fun _ => trivial⟩

theorem Concerns.within {α : Type} {p : BusProgram α} (h : Concerns part slave p) :
    Within part p :=
  h.mono fun _ hr => hr.1

end Bus

open Bus Program

variable {α : Type} {P : Request → Prop}

theorem only_perform {r : Request} (h : P r) : (perform r).Only P := ⟨h, fun _ => trivial⟩

-- ============================================================== states

namespace StateControl

variable {timing : Timing} {slave : UInt16} {target : AlState}

/-- Waiting for a state looks at the state only. -/
theorem only_poll (hlook : P (.state slave)) (polls : Nat) (last : Status) :
    (poll slave target polls last).Only P := by
  induction polls generalizing last with
  | zero =>
    unfold poll
    exact only_pure _
  | succ polls ih =>
    unfold poll
    refine (only_perform hlook).bind fun answer => ?_
    cases answer with
    | error => exact ih last
    | ok status =>
      dsimp only
      split
      · exact only_pure _
      · exact ih status

/-- Asking for a state makes the request and looks. -/
theorem only_ask (hlook : P (.state slave)) (hask : P (.setState slave target)) (polls : Nat)
    (last : Status) : (ask slave target polls last).Only P := by
  unfold ask
  refine (only_perform hask).bind fun answer => ?_
  cases answer with
  | ok => exact only_poll hlook polls last
  | error => exact only_pure _

/-- The detour asks for the safe state and for operational. -/
theorem only_escalate (hlook : P (.state slave)) (hsafe : P (.setState slave .safeOperational))
    (hask : P (.setState slave .operational)) (last : Status) :
    (escalate timing slave last).Only P := by
  unfold escalate
  refine (only_ask hlook hsafe _ last).bind fun answer => ?_
  obtain ⟨safe, last⟩ := answer
  cases safe with
  | true => exact only_ask hlook hask _ last
  | false => exact only_pure _

/-- Changing a state asks for the state, and for the safe one on the way to operational. -/
theorem only_reach (hclear : P (.clearAl slave)) (hlook : P (.state slave))
    (hask : P (.setState slave target))
    (hdetour : target = .operational → P (.setState slave .safeOperational)) :
    (reach timing slave target).Only P := by
  have hattempts (left : Nat) (escalated : Bool) (last : Status) :
      (attempts timing slave target left escalated last).Only P := by
    induction left generalizing escalated last with
    | zero =>
      unfold attempts
      exact only_pure _
    | succ left ih =>
      unfold attempts
      refine (only_perform hclear).bind fun _ => (only_ask hlook hask _ last).bind fun answer => ?_
      obtain ⟨reached, last⟩ := answer
      cases reached with
      | true => exact only_pure _
      | false =>
        dsimp only
        rw [if_neg Bool.false_ne_true]
        split
        next hdue =>
          have htarget : target = .operational := hdue.2.1
          refine (only_escalate hlook (hdetour htarget) (htarget ▸ hask) last).bind fun answer => ?_
          obtain ⟨reached, last⟩ := answer
          cases reached with
          | true => exact only_pure _
          | false => exact ih true last
        next => exact ih escalated last
  unfold reach
  refine (hattempts _ _ _).bind fun answer => ?_
  obtain ⟨reached, last⟩ := answer
  cases reached <;> exact only_pure _

/-- Changing a state concerns the states of one slave. -/
theorem concerns_reach : Concerns .states slave (reach timing slave target) :=
  only_reach ⟨rfl, rfl⟩ ⟨rfl, rfl⟩ ⟨rfl, rfl⟩ fun _ => ⟨rfl, rfl⟩

end StateControl

-- ========================================================== dictionaries

variable {slave map : UInt16} {pdo : Pdo} {target : List Pdo.Entry}

/-- All reads of items are among the requests that have a property. -/
def Reads (P : Request → Prop) (slave : UInt16) : Prop := ∀ a capacity, P (.sdoRead slave a capacity)

/-- All writes of items of an object are. -/
def WritesTo (P : Request → Prop) (slave index : UInt16) : Prop :=
  ∀ sub data, P (.sdoWrite slave ⟨index, sub⟩ data)

/-- Reading an object takes a read only. -/
theorem DataObject.only_read [Packed α] {object : DataObject α} (hreads : Reads P slave) :
    (object.read slave).Only P := by
  unfold read
  refine (only_perform (hreads _ _)).bind fun answer => ?_
  cases answer <;> exact only_pure _

/-- What a slave sends of an item is filled up with zeros, which do not count. -/
theorem Packed.unpack_fit_take [Packed α] (item : Bytes) :
    unpack (Bytes.fit (size α) (item.take (size α)))
      = ofWord (α := α) (Bytes.toNat (item.take (size α))) := by
  have hlength : (item.take (size α)).length ≤ size α := List.length_take_le _ _
  unfold unpack
  rw [if_neg (by simp), List.take_of_length_le (by simp), Bytes.toNat_fit hlength]

/-- What is read of an object is what the bytes received stand for. -/
theorem DataObject.read_eq_bind [Packed α] (object : DataObject α) :
    object.read slave = Bus.sdoRead slave object.address (Packed.size α) >>= fun answer =>
      pure (answer.bind fun received =>
        (Packed.unpack (Bytes.fit (Packed.size α) received)).mapError Fault.ofPacking) := by
  unfold read
  congr 1
  funext answer
  cases answer <;> rfl

/-- Reading an object takes one transaction, whatever becomes of it. -/
theorem DataObject.runs_read_iff [Packed α] {object : DataObject α} {t : Bus.interface.Trace}
    {r : Except Fault α} :
    Runs (object.read slave) t r
      ↔ ∃ answer, t = [⟨.sdoRead slave object.address (Packed.size α), answer⟩]
        ∧ r = answer.bind fun received =>
          (Packed.unpack (Bytes.fit (Packed.size α) received)).mapError Fault.ofPacking := by
  rw [read_eq_bind, runs_bind_pure_iff]
  refine exists_congr fun answer => ?_
  rw [and_comm]
  exact and_congr_left fun _ => runs_request_done_iff

namespace Negotiation

open DataObject

/-- Comparing a mapping with its target takes reads only. -/
theorem only_holds (hreads : Reads P slave) (sub : UInt8) : (holds slave map sub target).Only P := by
  induction target generalizing sub with
  | nil => exact only_pure _
  | cons wanted rest ih =>
    unfold holds
    refine (only_read hreads).bind fun answer => ?_
    cases answer with
    | error => exact only_pure _
    | ok found =>
      dsimp only
      split
      · exact ih (sub + 1)
      · exact only_pure _

/-- Looking whether a mapping is current takes reads only. -/
theorem only_isCurrent (hreads : Reads P slave) : (isCurrent slave map target).Only P := by
  unfold isCurrent
  refine (only_read hreads).bind fun answer => ?_
  cases answer with
  | error => exact only_pure _
  | ok current =>
    dsimp only
    split
    · exact only_holds hreads 1
    · exact only_pure _

/-- Finding the assignment to restore takes a read only. -/
theorem only_assignmentToRestore {assign : UInt16} (hreads : Reads P slave) :
    (assignmentToRestore slave assign).Only P := by
  unfold assignmentToRestore
  refine (only_read hreads).bind fun answer => ?_
  cases answer <;> exact only_pure _

/-- A step is noted in the error, which takes no request. -/
theorem only_attempt {step : Step} {p : BusProgram (Except Bus.Fault α)} (hp : p.Only P) :
    (attempt map step p).run.Only P :=
  hp.bind fun _ => only_pure _

/-- The entries are written to the mapping object. -/
theorem only_writeEntries (hmap : WritesTo P slave map) (sub : UInt8) :
    (writeEntries slave map sub target).run.Only P := by
  induction target generalizing sub with
  | nil => exact only_pure _
  | cons value rest ih =>
    unfold writeEntries
    exact (only_attempt (only_perform (hmap _ _))).bindExcept fun _ => ih (sub + 1)

/-- Replacing a mapping writes to the mapping object and to its assignment. -/
theorem only_replace (hreads : Reads P slave) (hmap : WritesTo P slave pdo.index)
    (hassign : WritesTo P slave pdo.assign) : (replace slave pdo target).run.Only P := by
  unfold replace
  refine Only.bindExcept ((only_assignmentToRestore hreads).bind fun _ => only_pure _)
    fun assignment => ?_
  refine (only_attempt (only_perform (hassign _ _))).bindExcept fun _ => ?_
  refine (only_attempt (only_perform (hmap _ _))).bindExcept fun _ => ?_
  refine (only_writeEntries hmap 1).bindExcept fun _ => ?_
  refine (only_attempt (only_perform (hmap _ _))).bindExcept fun _ => ?_
  refine (only_attempt (only_perform (hassign _ _))).bindExcept fun _ => ?_
  refine (only_attempt (only_read hreads)).bindExcept fun found => ?_
  split <;> exact only_pure _

/-- A negotiation reads the slave, and writes to the mapping object and its assignment only.
-/
theorem only_negotiate {capacity : Option Nat} (hreads : Reads P slave)
    (hmap : WritesTo P slave pdo.index) (hassign : WritesTo P slave pdo.assign) :
    (negotiate slave pdo target capacity).Only P := by
  unfold negotiate
  dsimp only
  split
  · exact only_pure _
  · refine (only_isCurrent hreads).bind fun current => ?_
    cases current with
    | true => exact only_pure _
    | false => exact (only_replace hreads hmap hassign).bind fun _ => only_pure _

/-- The entries that are there are found by reads only. -/
theorem only_entries (hreads : Reads P slave) (sub : UInt8) (n : Nat) :
    (entries slave map sub n).run.Only P := by
  induction n generalizing sub with
  | zero => exact only_pure _
  | succ n ih =>
    unfold entries
    refine (only_attempt (only_read hreads)).bindExcept fun value => ?_
    exact (ih (sub + 1)).bindExcept fun _ => only_pure _

/-- So is the whole mapping, behind its count. -/
theorem only_describe (hreads : Reads P slave) : (describe slave map).Only P :=
  (only_attempt (only_read hreads)).bindExcept fun _ => only_entries hreads 1 _

end Negotiation

namespace Bringup

open DataObject Negotiation

/-- A negotiation that is reported with what it left takes reads beyond that. -/
theorem only_negotiateOne (hreads : Reads P slave) (hmap : WritesTo P slave pdo.index)
    (hassign : WritesTo P slave pdo.assign) : (negotiateOne slave pdo target).Only P := by
  unfold negotiateOne
  refine (only_negotiate hreads hmap hassign).bind fun result => ?_
  refine (only_describe hreads).bind fun _ => ?_
  cases result <;> exact only_pure _

end Bringup

end Servo
