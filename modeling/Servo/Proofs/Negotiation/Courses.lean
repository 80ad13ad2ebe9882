/-
The ways a negotiation can go.

A negotiation looks at the mapping, item by item, up to the first one that is not as
wanted. If there is none, that was all. Otherwise it reads the assignment and carries
out the plan, up to the first write that is refused; and if none is, it reads the
number of entries back.

`Course` says the same of the events: which of them there are, and which result they
lead to. Every run is one of these courses, and every course is a run
(`runs_negotiate_iff`). Since the answers decide a run (`Runs.value_unique`), the events
of a rewriting lead to one result (`Rewritten.unique`).
-/
import Servo.Proofs.Negotiation

namespace Servo

open Program

-- ================================================================ reading

section

variable {α : Type} [Packed α] {k : UInt16} {object : DataObject α} {t : Bus.interface.Trace}

/-- An event reads an object, with a result. A slave may send fewer bytes than the
value takes, the missing ones are zeros. -/
inductive ReadsAs (k : UInt16) (object : DataObject α) :
    Bus.interface.Event → Except Bus.Fault α → Prop
  | value {received : Bytes} {value : α} :
      Bytes.fit (Packed.size α) received = Packed.bytes value →
      ReadsAs k object ⟨.sdoRead k object.address (Packed.size α), .ok received⟩ (.ok value)
  | fault (fault : Bus.Fault) :
      ReadsAs k object ⟨.sdoRead k object.address (Packed.size α), .error fault⟩ (.error fault)

/-- A read changes no dictionary. -/
theorem ReadsAs.next {e : Bus.interface.Event} {r : Except Bus.Fault α} {d : Simulation.Dictionary}
    (h : ReadsAs k object e r) : d.next k e = d := by
  cases h <;> rfl

/-- Bytes of the right number stand for the value whose bytes they are. -/
theorem Packed.unpack_fit_iff [LawfulPacked α] {received : Bytes} {value : α} :
    Packed.unpack (Bytes.fit (Packed.size α) received) = .ok value
      ↔ Bytes.fit (Packed.size α) received = Packed.bytes value := by
  have hlength := Bytes.length_fit (Packed.size α) received
  constructor
  · intro h
    unfold Packed.unpack at h
    rw [if_neg (by omega), List.take_of_length_le (by omega)] at h
    have hlt := Bytes.toNat_lt (Bytes.fit (Packed.size α) received)
    rw [hlength] at hlt
    have hencoded := Bytes.ofNat_toNat (Bytes.fit (Packed.size α) received)
    rw [hlength] at hencoded
    unfold Packed.bytes
    rw [LawfulPacked.word_of_ofWord hlt h, hencoded]
  · intro h
    have hvalue := Packed.unpack_bytes value []
    rwa [List.append_nil, ← h] at hvalue

/-- Where all words are values, a read is one event. -/
theorem runs_read_iff_readsAs [LawfulPacked α]
    (htotal : ∀ n, ∃ value : α, Packed.ofWord n = .ok value) {r : Except Bus.Fault α} :
    Runs (object.read k) t r ↔ ∃ e, t = [e] ∧ ReadsAs k object e r := by
  rw [DataObject.runs_read_iff]
  constructor
  · intro h
    obtain ⟨answer, rfl, rfl⟩ := h
    refine ⟨_, rfl, ?_⟩
    cases answer with
    | error fault => exact .fault fault
    | ok received =>
      obtain ⟨value, hvalue⟩ := htotal (Bytes.toNat
        ((Bytes.fit (Packed.size α) received).take (Packed.size α)))
      have hunpack : Packed.unpack (Bytes.fit (Packed.size α) received) = .ok value := by
        unfold Packed.unpack
        rw [if_neg (by simp), hvalue]
      dsimp only [Except.bind]
      rw [hunpack]
      exact .value (Packed.unpack_fit_iff.1 hunpack)
  · intro h
    obtain ⟨e, rfl, he⟩ := h
    cases he with
    | fault fault => exact ⟨_, rfl, rfl⟩
    | value hreceived =>
      refine ⟨_, rfl, ?_⟩
      dsimp only [Except.bind]
      rw [Packed.unpack_fit_iff.2 hreceived]
      rfl

end

namespace Negotiation

open Simulation (Dictionary)

variable {k map assign : UInt16} {pdo : Pdo} {target : List Pdo.Entry} {capacity : Option Nat}
  {assignment : UInt8} {t u : Bus.interface.Trace} {e : Bus.interface.Event}

theorem runs_count_iff {index : UInt16} {r : Except Bus.Fault UInt8} :
    Runs ((count index).read k) t r ↔ ∃ e, t = [e] ∧ ReadsAs k (count index) e r :=
  runs_read_iff_readsAs fun _ => ⟨_, rfl⟩

theorem runs_entry_iff {sub : UInt8} {r : Except Bus.Fault Pdo.Entry} :
    Runs ((entry map sub).read k) t r ↔ ∃ e, t = [e] ∧ ReadsAs k (entry map sub) e r :=
  runs_read_iff_readsAs fun _ => ⟨_, rfl⟩

-- ============================================================ the looks

/-- The entries from a subindex on are read, and are as wanted. -/
inductive Matches (k map : UInt16) : UInt8 → List Pdo.Entry → Bus.interface.Trace → Prop
  | nil {sub : UInt8} : Matches k map sub [] []
  | cons {sub : UInt8} {wanted : Pdo.Entry} {rest : List Pdo.Entry} {e : Bus.interface.Event}
      {t : Bus.interface.Trace} : ReadsAs k (entry map sub) e (.ok wanted) →
      Matches k map (sub + 1) rest t → Matches k map sub (wanted :: rest) (e :: t)

/-- The entries are read up to one that is not as wanted. -/
inductive Departs (k map : UInt16) : UInt8 → List Pdo.Entry → Bus.interface.Trace → Prop
  | here {sub : UInt8} {wanted : Pdo.Entry} {rest : List Pdo.Entry} {e : Bus.interface.Event}
      {r : Except Bus.Fault Pdo.Entry} : ReadsAs k (entry map sub) e r → r ≠ .ok wanted →
      Departs k map sub (wanted :: rest) [e]
  | later {sub : UInt8} {wanted : Pdo.Entry} {rest : List Pdo.Entry} {e : Bus.interface.Event}
      {t : Bus.interface.Trace} : ReadsAs k (entry map sub) e (.ok wanted) →
      Departs k map (sub + 1) rest t → Departs k map sub (wanted :: rest) (e :: t)

/-- A comparison of entries either matches to the end, or departs at the first other one. -/
theorem runs_holds_iff {sub : UInt8} {b : Bool} :
    Runs (holds k map sub target) t b
      ↔ b = true ∧ Matches k map sub target t ∨ b = false ∧ Departs k map sub target t := by
  induction target generalizing sub t with
  | nil =>
    unfold holds
    rw [runs_pure_iff]
    constructor
    · intro h
      obtain ⟨rfl, rfl⟩ := h
      exact .inl ⟨rfl, .nil⟩
    · intro h
      rcases h with ⟨rfl, hmatches⟩ | ⟨-, hdeparts⟩
      · cases hmatches
        exact ⟨rfl, rfl⟩
      · cases hdeparts
  | cons wanted rest ih =>
    rw [holds_cons, runs_ifWanted_iff]
    constructor
    · intro h
      obtain ⟨u, r, v, rfl, hread, hrest⟩ := h
      obtain ⟨e, rfl, he⟩ := runs_entry_iff.1 hread
      rcases hrest with ⟨rfl, hrest⟩ | ⟨hne, rfl, rfl⟩
      · rcases ih.1 hrest with ⟨rfl, hmatches⟩ | ⟨rfl, hdeparts⟩
        · exact .inl ⟨rfl, .cons he hmatches⟩
        · exact .inr ⟨rfl, .later he hdeparts⟩
      · exact .inr ⟨rfl, .here he hne⟩
    · intro h
      rcases h with ⟨rfl, hmatches⟩ | ⟨rfl, hdeparts⟩
      · cases hmatches with
        | cons he hmatches =>
          have hrest := ih.2 (.inl ⟨rfl, hmatches⟩)
          exact ⟨[_], _, _, rfl, runs_entry_iff.2 ⟨_, rfl, he⟩, .inl ⟨rfl, hrest⟩⟩
      · cases hdeparts with
        | here he hne =>
          exact ⟨[_], _, [], rfl, runs_entry_iff.2 ⟨_, rfl, he⟩, .inr ⟨hne, rfl, rfl⟩⟩
        | later he hdeparts =>
          have hrest := ih.2 (.inr ⟨rfl, hdeparts⟩)
          exact ⟨[_], _, _, rfl, runs_entry_iff.2 ⟨_, rfl, he⟩, .inl ⟨rfl, hrest⟩⟩

/-- The mapping is read, and is the wanted one. -/
inductive Holds (k map : UInt16) (target : List Pdo.Entry) : Bus.interface.Trace → Prop
  | intro {e : Bus.interface.Event} {t : Bus.interface.Trace} :
      ReadsAs k (count map) e (.ok (.ofNat target.length)) → Matches k map 1 target t →
      Holds k map target (e :: t)

/-- The mapping is read up to where it is not the wanted one. -/
inductive Differs (k map : UInt16) (target : List Pdo.Entry) : Bus.interface.Trace → Prop
  | count {e : Bus.interface.Event} {r : Except Bus.Fault UInt8} :
      ReadsAs k (count map) e r → r ≠ .ok (.ofNat target.length) → Differs k map target [e]
  | entry {e : Bus.interface.Event} {t : Bus.interface.Trace} :
      ReadsAs k (count map) e (.ok (.ofNat target.length)) → Departs k map 1 target t →
      Differs k map target (e :: t)

/-- Looking whether a mapping is current finds that it holds, or where it differs. -/
theorem runs_isCurrent_iff {b : Bool} :
    Runs (isCurrent k map target) t b
      ↔ b = true ∧ Holds k map target t ∨ b = false ∧ Differs k map target t := by
  rw [isCurrent_eq, runs_ifWanted_iff]
  constructor
  · intro h
    obtain ⟨u, r, v, rfl, hread, hrest⟩ := h
    obtain ⟨e, rfl, he⟩ := runs_count_iff.1 hread
    rcases hrest with ⟨rfl, hrest⟩ | ⟨hne, rfl, rfl⟩
    · rcases runs_holds_iff.1 hrest with ⟨rfl, hmatches⟩ | ⟨rfl, hdeparts⟩
      · exact .inl ⟨rfl, .intro he hmatches⟩
      · exact .inr ⟨rfl, .entry he hdeparts⟩
    · exact .inr ⟨rfl, .count he hne⟩
  · intro h
    rcases h with ⟨rfl, hholds⟩ | ⟨rfl, hdiffers⟩
    · cases hholds with
      | intro he hmatches =>
        have hrest := runs_holds_iff.2 (.inl ⟨rfl, hmatches⟩)
        exact ⟨[_], _, _, rfl, runs_count_iff.2 ⟨_, rfl, he⟩, .inl ⟨rfl, hrest⟩⟩
    · cases hdiffers with
      | count he hne => exact ⟨[_], _, [], rfl, runs_count_iff.2 ⟨_, rfl, he⟩, .inr ⟨hne, rfl, rfl⟩⟩
      | entry he hdeparts =>
        have hrest := runs_holds_iff.2 (.inr ⟨rfl, hdeparts⟩)
        exact ⟨[_], _, _, rfl, runs_count_iff.2 ⟨_, rfl, he⟩, .inl ⟨rfl, hrest⟩⟩

-- ======================================================== the assignment

/-- The assignment to restore, by what was read before. -/
def restored : Except Bus.Fault UInt8 → UInt8
  | .ok assignment => if assignment = 0 then 1 else assignment
  | .error _ => 1

/-- An assignment is never restored to zero, which would leave the mapping out of the
exchange. -/
theorem restored_ne_zero (r : Except Bus.Fault UInt8) : restored r ≠ 0 := by
  cases r with
  | error => exact nofun
  | ok found =>
    unfold restored
    dsimp only
    split
    next => exact nofun
    next hfound => exact hfound

/-- The assignment to restore is found by one read, whatever it answers. -/
theorem runs_assignmentToRestore_iff :
    Runs (assignmentToRestore k assign) t assignment
      ↔ ∃ e r, t = [e] ∧ ReadsAs k (count assign) e r ∧ assignment = restored r := by
  have hprogram : assignmentToRestore k assign
      = (count assign).read k >>= fun r => pure (restored r) := by
    unfold assignmentToRestore
    congr 1
    funext r
    cases r <;> rfl
  rw [hprogram, runs_bind_pure_iff]
  constructor
  · intro h
    obtain ⟨r, rfl, hread⟩ := h
    obtain ⟨e, rfl, he⟩ := runs_count_iff.1 hread
    exact ⟨e, r, rfl, he, rfl⟩
  · intro h
    obtain ⟨e, r, rfl, he, rfl⟩ := h
    exact ⟨r, rfl, runs_count_iff.2 ⟨e, rfl, he⟩⟩

-- ============================================================= the writes

/-- A plan whose writes are all taken is carried out. -/
theorem runs_carryOut_taken (ws : List Write) :
    Runs (carryOut k map ws).run (ws.map (Write.taken k)) (.ok ()) := by
  induction ws with
  | nil => exact .done _
  | cons w ws ih => exact .request _ ih

/-- A plan with a write that is refused ends there, with the fault of that step. -/
theorem runs_carryOut_refused (done : List Write) (w : Write) (rest : List Write)
    (fault : Bus.Fault) :
    Runs (carryOut k map (done ++ w :: rest)).run
      (done.map (Write.taken k) ++ [w.refused k fault]) (.error (.failed map w.step fault)) := by
  induction done with
  | nil => exact .request _ (.done _)
  | cons w' done ih => exact .request _ ih

/-- The number of entries is read back, after all writes were taken. -/
inductive Verified (k map : UInt16) (length : UInt8) :
    Bus.interface.Event → Except Error Unit → Prop
  | same {e : Bus.interface.Event} :
      ReadsAs k (count map) e (.ok length) → Verified k map length e (.ok ())
  | other {e : Bus.interface.Event} {found : UInt8} :
      ReadsAs k (count map) e (.ok found) → found ≠ length →
      Verified k map length e (.error (.unverified map length found))
  | unread {e : Bus.interface.Event} {fault : Bus.Fault} :
      ReadsAs k (count map) e (.error fault) →
      Verified k map length e (.error (.failed map .verify fault))

/-- Reads the number of entries back. -/
def verify (k map : UInt16) (length : UInt8) : ExceptT Error BusProgram Unit := do
  let found ← attempt map .verify ((count map).read k)
  if found ≠ length then throw (.unverified map length found)

/-- The last look reads the count once. -/
theorem runs_verify_iff {length : UInt8} {r : Except Error Unit} :
    Runs (verify k map length).run t r ↔ ∃ e, t = [e] ∧ Verified k map length e r := by
  unfold verify
  rw [ExceptT.run_bind, runs_bind_iff]
  constructor
  · intro h
    obtain ⟨u, found, v, rfl, hattempt, hrest⟩ := h
    obtain ⟨answer, rfl, hread⟩ := runs_attempt_iff.1 hattempt
    obtain ⟨e, rfl, he⟩ := runs_count_iff.1 hread
    cases answer with
    | error fault =>
      obtain ⟨rfl, rfl⟩ := runs_pure_iff.1 hrest
      exact ⟨e, rfl, .unread he⟩
    | ok found =>
      dsimp only [Except.mapError] at hrest
      split at hrest
      next hfound =>
        obtain ⟨rfl, rfl⟩ := runs_pure_iff.1 hrest
        exact ⟨e, rfl, .other he hfound⟩
      next hfound =>
        obtain ⟨rfl, rfl⟩ := runs_pure_iff.1 hrest
        obtain rfl := Decidable.not_not.1 hfound
        exact ⟨e, rfl, .same he⟩
  · intro h
    obtain ⟨e, rfl, hverified⟩ := h
    have hattempt {answer : Except Bus.Fault UInt8} (he : ReadsAs k (count map) e answer) :
        Runs (attempt map .verify ((count map).read k)).run [e]
          (answer.mapError (Error.failed map .verify)) :=
      runs_attempt_iff.2 ⟨answer, rfl, runs_count_iff.2 ⟨e, rfl, he⟩⟩
    cases hverified with
    | unread he => exact ⟨[e], _, [], rfl, hattempt he, .done _⟩
    | other he hne =>
      refine ⟨[e], _, [], rfl, hattempt he, ?_⟩
      dsimp only [Except.mapError]
      rw [if_pos hne]
      exact .done _
    | same he =>
      refine ⟨[e], _, [], rfl, hattempt he, ?_⟩
      dsimp only [Except.mapError]
      rw [if_neg (not_not_intro rfl)]
      exact .done _

/-- The plan is carried out up to a write that is refused, or else verified. -/
inductive Rewritten (k : UInt16) (pdo : Pdo) (target : List Pdo.Entry) (assignment : UInt8) :
    Bus.interface.Trace → Except Error Unit → Prop
  | refused {done rest : List Write} {w : Write} (fault : Bus.Fault) :
      plan pdo target assignment = done ++ w :: rest →
      Rewritten k pdo target assignment (done.map (Write.taken k) ++ [w.refused k fault])
        (.error (.failed pdo.index w.step fault))
  | carried {e : Bus.interface.Event} {r : Except Error Unit} :
      Verified k pdo.index (.ofNat target.length) e r →
      Rewritten k pdo target assignment
        ((plan pdo target assignment).map (Write.taken k) ++ [e]) r

/-- What is left to do once the assignment is known. -/
def rewrite (k : UInt16) (pdo : Pdo) (target : List Pdo.Entry) (assignment : UInt8) :
    ExceptT Error BusProgram Unit := do
  carryOut k pdo.index (plan pdo target assignment)
  verify k pdo.index (.ofNat target.length)

/-- Rewriting is a plan that is cut short, or carried out and verified. -/
theorem runs_rewrite_iff {r : Except Error Unit} :
    Runs (rewrite k pdo target assignment).run t r
      ↔ Rewritten k pdo target assignment t r := by
  unfold rewrite
  rw [ExceptT.run_bind, runs_bind_iff]
  constructor
  · intro h
    obtain ⟨u, carried, v, rfl, hcarry, hverify⟩ := h
    rcases runs_carryOut hcarry with ⟨rfl, rfl⟩ | ⟨done, w, rest, fault, hplan, rfl, rfl⟩
    · obtain ⟨e, rfl, hverified⟩ := runs_verify_iff.1 hverify
      exact .carried hverified
    · obtain ⟨rfl, rfl⟩ := runs_pure_iff.1 hverify
      rw [List.append_nil]
      exact .refused fault hplan
  · intro h
    cases h with
    | @refused done rest w fault hplan =>
      rw [hplan]
      exact ⟨_, _, [], (List.append_nil _).symm, runs_carryOut_refused done w rest fault, .done _⟩
    | carried hverified =>
      exact ⟨_, _, _, rfl, runs_carryOut_taken _, runs_verify_iff.2 ⟨_, rfl, hverified⟩⟩

-- ============================================================ the courses

/-- There are too many entries, or more bits than there is room for. -/
def TooLarge (target : List Pdo.Entry) (capacity : Option Nat) : Prop :=
  Pdo.maxEntries < target.length ∨ ∃ room, capacity = some room ∧ room < Pdo.totalBits target

/-- The ways a negotiation can go. -/
inductive Course (k : UInt16) (pdo : Pdo) (target : List Pdo.Entry) (capacity : Option Nat) :
    Bus.interface.Trace → Except Error Outcome → Prop
  | tooLarge : TooLarge target capacity →
      Course k pdo target capacity []
        (.error (.tooLarge pdo.index (Pdo.totalBits target)
          (capacity.getD (Pdo.totalBits target))))
  | unchanged {t : Bus.interface.Trace} : ¬ TooLarge target capacity →
      Holds k pdo.index target t → Course k pdo target capacity t (.ok .unchanged)
  | rewritten {looks t : Bus.interface.Trace} {e : Bus.interface.Event}
      {found : Except Bus.Fault UInt8} {r : Except Error Unit} : ¬ TooLarge target capacity →
      Differs k pdo.index target looks → ReadsAs k (count pdo.assign) e found →
      Rewritten k pdo target (restored found) t r →
      Course k pdo target capacity (looks ++ e :: t) (r.map fun _ => .applied)

/-- A target is too large for the entries that a mapping can have, or for the bits that
there is room for. -/
theorem tooLarge_iff :
    TooLarge target capacity
      ↔ Pdo.maxEntries < target.length
        ∨ capacity.getD (Pdo.totalBits target) < Pdo.totalBits target := by
  unfold TooLarge
  cases capacity with
  | none => simp
  | some room => simp

/-- A replacement reads the assignment first, and rewrites with what it found. -/
theorem runs_replace_iff {r : Except Error Unit} :
    Runs (replace k pdo target).run t r
      ↔ ∃ e found u, t = e :: u ∧ ReadsAs k (count pdo.assign) e found
        ∧ Rewritten k pdo target (restored found) u r := by
  rw [replace_eq, ExceptT.run_bind, runs_bind_iff]
  constructor
  · intro h
    obtain ⟨u, _, v, rfl, hlift, hrest⟩ := h
    obtain ⟨assignment, rfl, hrestore⟩ := runs_lift_iff.1 hlift
    obtain ⟨e, found, rfl, he, rfl⟩ := runs_assignmentToRestore_iff.1 hrestore
    exact ⟨e, found, v, rfl, he, runs_rewrite_iff.1 hrest⟩
  · intro h
    obtain ⟨e, found, u, rfl, he, hrewritten⟩ := h
    have hrestore := runs_assignmentToRestore_iff.2 ⟨e, found, rfl, he, rfl⟩
    exact ⟨[e], .ok (restored found), u, rfl, runs_lift_iff.2 ⟨_, rfl, hrestore⟩,
      runs_rewrite_iff.2 hrewritten⟩

/-- A negotiation goes one of the ways there are, and can go each of them. -/
theorem runs_negotiate_iff {r : Except Error Outcome} :
    Runs (negotiate k pdo target capacity) t r ↔ Course k pdo target capacity t r := by
  unfold negotiate
  dsimp only
  constructor
  · intro h
    split at h
    next hlarge =>
      obtain ⟨rfl, rfl⟩ := runs_pure_iff.1 h
      exact .tooLarge (tooLarge_iff.2 hlarge)
    next hfits =>
      replace hfits : ¬ TooLarge target capacity := fun hlarge => hfits (tooLarge_iff.1 hlarge)
      obtain ⟨u, current, v, rfl, hcurrent, hrest⟩ := runs_bind_iff.1 h
      rcases runs_isCurrent_iff.1 hcurrent with ⟨rfl, hholds⟩ | ⟨rfl, hdiffers⟩
      · obtain ⟨rfl, rfl⟩ := runs_pure_iff.1 hrest
        rw [List.append_nil]
        exact .unchanged hfits hholds
      · obtain ⟨r', rfl, hreplace⟩ := runs_bind_pure_iff.1 hrest
        obtain ⟨e, found, w, rfl, he, hrewritten⟩ := runs_replace_iff.1 hreplace
        exact .rewritten hfits hdiffers he hrewritten
  · intro h
    cases h with
    | tooLarge hlarge =>
      rw [if_pos (tooLarge_iff.1 hlarge)]
      exact .done _
    | unchanged hfits hholds =>
      rw [if_neg fun hlarge => hfits (tooLarge_iff.2 hlarge), runs_bind_iff]
      exact ⟨_, true, [], (List.append_nil _).symm, runs_isCurrent_iff.2 (.inl ⟨rfl, hholds⟩),
        .done _⟩
    | @rewritten looks u e found r hfits hdiffers he hrewritten =>
      rw [if_neg fun hlarge => hfits (tooLarge_iff.2 hlarge), runs_bind_iff]
      refine ⟨looks, false, e :: u, rfl, runs_isCurrent_iff.2 (.inr ⟨rfl, hdiffers⟩), ?_⟩
      exact runs_bind_pure_iff.2 ⟨r, rfl, runs_replace_iff.2 ⟨e, found, u, rfl, he, hrewritten⟩⟩

/-- One trace of a rewriting has one result. -/
theorem Rewritten.unique {r r' : Except Error Unit} (h : Rewritten k pdo target assignment t r)
    (h' : Rewritten k pdo target assignment t r') : r = r' :=
  (runs_rewrite_iff.2 h).value_unique (runs_rewrite_iff.2 h')

-- =========================================================== what is left

section

variable {d : Dictionary} {looks : Bus.interface.Trace}

/-- Finding out that a mapping holds changes nothing. -/
theorem Holds.after (h : Holds k map target t) : d.after k t = d :=
  after_of_reads (only_isCurrent fun _ _ => trivial) (runs_isCurrent_iff.2 (.inl ⟨rfl, h⟩))

/-- Finding out that a mapping differs changes nothing. -/
theorem Differs.after (h : Differs k map target t) : d.after k t = d :=
  after_of_reads (only_isCurrent fun _ _ => trivial) (runs_isCurrent_iff.2 (.inr ⟨rfl, h⟩))

/-- Up to the first write, nothing changes. -/
theorem after_rewriting {r : Except Bus.Fault UInt8} (hdiffers : Differs k pdo.index target looks)
    (hread : ReadsAs k (count pdo.assign) e r) : d.after k (looks ++ e :: u) = d.after k u := by
  rw [Dictionary.after_append, hdiffers.after, Dictionary.after_cons, hread.next]

/-- A write that is refused is not in the dictionary, those before it are. -/
theorem after_refused (done : List Write) (w : Write) (fault : Bus.Fault) :
    d.after k (done.map (Write.taken k) ++ [w.refused k fault]) = written d done := by
  rw [Dictionary.after_append, after_taken]
  rfl

/-- The last look leaves what the plan has written. -/
theorem after_carried {length : UInt8} {r : Except Error Unit} {ws : List Write}
    (h : Verified k map length e r) :
    d.after k (ws.map (Write.taken k) ++ [e]) = written d ws := by
  rw [Dictionary.after_append, after_taken, Dictionary.after_cons, Dictionary.after_nil]
  cases h with
  | same he | other he _ | unread he => exact he.next

end

end Negotiation

end Servo
