/-
What a negotiation requests, and what it ends with.

Its writes are those of the plan, up to the first that is refused, and its result
names the step that failed. A result is had on its own course and on no other
(`Rewritten.unique`), so each field of `Protocol` says exactly when it is had;
`negotiate_protocol` puts them together.
-/
import Servo.Proofs.Negotiation.Courses
import Servo.Simulation.Segment

namespace Servo

open Program

namespace Bus

def Request.isWrite : Request → Bool
  | sdoWrite _ _ _ => true
  | _ => false

end Bus

namespace Negotiation

open Simulation (Dictionary)

variable {k map : UInt16} {pdo : Pdo} {target : List Pdo.Entry} {capacity : Option Nat}
  {assignment : UInt8} {t u : Bus.interface.Trace} {e : Bus.interface.Event}

-- ============================================================= the writes

/-- The writes among the requests of a trace, in their order. -/
def writes (t : Bus.interface.Trace) : List Bus.Request :=
  (t.map fun e => e.1).filter Bus.Request.isWrite

def Write.request (slave : UInt16) (w : Write) : Bus.Request := .sdoWrite slave w.address w.data

/-- A write that is not taken. -/
def IsRefusal : Bus.interface.Event → Prop
  | ⟨.sdoWrite _ _ _, .error _⟩ => True
  | _ => False

@[simp] theorem writes_append : writes (t ++ u) = writes t ++ writes u := by
  unfold writes
  rw [List.map_append, List.filter_append]

/-- Reads write nothing. -/
theorem writes_of_reads (h : ∀ e ∈ t, e.1.isWrite = false) : writes t = [] := by
  refine List.filter_eq_nil_iff.2 fun r hr => ?_
  obtain ⟨e, he, rfl⟩ := List.mem_map.1 hr
  rw [h e he]
  exact Bool.false_ne_true

@[simp] theorem writes_taken (ws : List Write) :
    writes (ws.map (Write.taken k)) = ws.map (Write.request k) := by
  induction ws with
  | nil => rfl
  | cons w ws ih => exact congrArg (w.request k :: ·) ih

theorem writes_readsAs {object : DataObject UInt8} {r : Except Bus.Fault UInt8}
    (h : ReadsAs k object e r) : writes [e] = [] := by
  cases h <;> rfl

/-- Looking at the mapping takes no writes. -/
theorem isWrite_of_isCurrent {b : Bool} (h : Runs (isCurrent k map target) t b) :
    ∀ e ∈ t, e.1.isWrite = false :=
  (only_isCurrent (P := fun r => r.isWrite = false) fun _ _ => rfl).of_runs h

/-- A rewriting that fails has carried the plan out up to there. -/
theorem Rewritten.writes_prefix {r : Except Error Unit}
    (h : Rewritten k pdo target assignment t r) :
    writes t <+: (plan pdo target assignment).map (Write.request k) := by
  cases h with
  | @refused done rest w fault hplan =>
    refine ⟨rest.map (Write.request k), ?_⟩
    rw [hplan, writes_append, writes_taken]
    show done.map (Write.request k) ++ [w.request k] ++ _ = _
    simp
  | @carried e r hverified =>
    have hread : writes [e] = [] := by
      cases hverified with
      | same he | other he | unread he => exact writes_readsAs he
    simp only [writes_append, writes_taken, hread, List.append_nil, List.prefix_rfl]

theorem not_isRefusal_of_isWrite (h : e.1.isWrite = false) : ¬ IsRefusal e := by
  obtain ⟨r, answer⟩ := e
  cases r with
  | sdoWrite => cases h
  | _ => exact id

/-- Only the last request can be a write that is refused. -/
theorem Course.not_isRefusal {r : Except Error Outcome} (h : Course k pdo target capacity t r) :
    ∀ e ∈ t.dropLast, ¬ IsRefusal e := by
  have htaken (ws : List Write) : ∀ e ∈ ws.map (Write.taken k), ¬ IsRefusal e := by
    intro e he
    obtain ⟨w, -, rfl⟩ := List.mem_map.1 he
    exact id
  cases h with
  | tooLarge => exact fun e he => absurd he List.not_mem_nil
  | unchanged _ hholds =>
    have hreads := isWrite_of_isCurrent (runs_isCurrent_iff.2 (.inl ⟨rfl, hholds⟩))
    exact fun e he => not_isRefusal_of_isWrite (hreads e (List.dropLast_subset _ he))
  | @rewritten looks u e found r _ hdiffers hread hrewritten =>
    have hlooks := isWrite_of_isCurrent (runs_isCurrent_iff.2 (.inr ⟨rfl, hdiffers⟩))
    have hfirst : ¬ IsRefusal e := by cases hread <;> exact id
    -- the end of either course is one event after writes that were all taken
    obtain ⟨ws, last, rfl⟩ : ∃ (ws : List Write) (last : Bus.interface.Event),
        u = ws.map (Write.taken k) ++ [last] := by
      cases hrewritten with
      | refused => exact ⟨_, _, rfl⟩
      | carried => exact ⟨_, _, rfl⟩
    rw [← List.cons_append, ← List.append_assoc, List.dropLast_concat]
    refine List.forall_mem_append.2 ⟨?_, List.forall_mem_cons.2 ⟨hfirst, htaken ws⟩⟩
    exact fun e he => not_isRefusal_of_isWrite (hlooks e he)

-- ============================================================ the results

/-- All writes were taken, and the number of entries was read back. -/
def ReadBack (k : UInt16) (pdo : Pdo) (target : List Pdo.Entry) (assignment : UInt8)
    (t : Bus.interface.Trace) (found : Except Bus.Fault UInt8) : Prop :=
  ∃ e, t = (plan pdo target assignment).map (Write.taken k) ++ [e]
    ∧ ReadsAs k (count pdo.index) e found

/-- A write was the first to be refused. -/
def Refused (k : UInt16) (pdo : Pdo) (target : List Pdo.Entry) (assignment : UInt8)
    (t : Bus.interface.Trace) (step : Step) (fault : Bus.Fault) : Prop :=
  ∃ done w rest, plan pdo target assignment = done ++ w :: rest ∧ w.step = step
    ∧ t = done.map (Write.taken k) ++ [w.refused k fault]

/-- A rewriting succeeds just if the count is read back as written. -/
theorem rewritten_ok_iff :
    Rewritten k pdo target assignment t (.ok ())
      ↔ ReadBack k pdo target assignment t (.ok (.ofNat target.length)) := by
  constructor
  · intro h
    cases h with
    | carried hverified =>
      cases hverified with
      | same he => exact ⟨_, rfl, he⟩
  · intro h
    obtain ⟨e, rfl, he⟩ := h
    exact .carried (.same he)

/-- It fails at a step just if that write was refused, or the last look was. -/
theorem rewritten_failed_iff {step : Step} {fault : Bus.Fault} :
    Rewritten k pdo target assignment t (.error (.failed map step fault))
      ↔ map = pdo.index ∧ (Refused k pdo target assignment t step fault
        ∨ step = .verify ∧ ReadBack k pdo target assignment t (.error fault)) := by
  constructor
  · intro h
    cases h with
    | refused _ hplan => exact ⟨rfl, .inl ⟨_, _, _, hplan, rfl, rfl⟩⟩
    | carried hverified =>
      cases hverified with
      | unread he => exact ⟨rfl, .inr ⟨rfl, _, rfl, he⟩⟩
  · intro h
    obtain ⟨rfl, ⟨done, w, rest, hplan, rfl, rfl⟩ | ⟨rfl, e, rfl, he⟩⟩ := h
    · exact .refused fault hplan
    · exact .carried (.unread he)

/-- It goes unverified just if another count is read back. -/
theorem rewritten_unverified_iff {expected found : UInt8} :
    Rewritten k pdo target assignment t (.error (.unverified map expected found))
      ↔ map = pdo.index ∧ expected = .ofNat target.length ∧ found ≠ expected
        ∧ ReadBack k pdo target assignment t (.ok found) := by
  constructor
  · intro h
    cases h with
    | carried hverified =>
      cases hverified with
      | other he hne => exact ⟨rfl, rfl, hne, _, rfl, he⟩
  · intro h
    obtain ⟨rfl, rfl, hne, e, rfl, he⟩ := h
    exact .carried (.other he hne)

/-- What becomes of a negotiation that has read the assignment, and goes on by `t`. -/
structure Rewrite (k : UInt16) (pdo : Pdo) (target : List Pdo.Entry) (assignment : UInt8)
    (t : Bus.interface.Trace) (r : Except Error Outcome) : Prop where
  planned : writes t <+: (plan pdo target assignment).map (Write.request k)
  /-- The first step to fail is the one that is named, -/
  failed {map : UInt16} {step : Step} {fault : Bus.Fault} :
    r = .error (.failed map step fault)
      ↔ map = pdo.index ∧ (Refused k pdo target assignment t step fault
        ∨ step = .verify ∧ ReadBack k pdo target assignment t (.error fault))
  /-- and if none fails, the number that is read back decides. -/
  unverified {map : UInt16} {expected found : UInt8} :
    r = .error (.unverified map expected found)
      ↔ map = pdo.index ∧ expected = .ofNat target.length ∧ found ≠ expected
        ∧ ReadBack k pdo target assignment t (.ok found)
  applied : r = .ok .applied
    ↔ ReadBack k pdo target assignment t (.ok (.ofNat target.length))

theorem Rewritten.rewrite {r : Except Error Unit} (h : Rewritten k pdo target assignment t r) :
    Rewrite k pdo target assignment t (r.map fun _ => .applied) := by
  have hiff (r' : Except Error Unit) : Rewritten k pdo target assignment t r' ↔ r = r' :=
    ⟨fun h' => h.unique h', fun hr => hr ▸ h⟩
  constructor
  case planned => exact h.writes_prefix
  case failed =>
    intro map step fault
    rw [← rewritten_failed_iff, hiff]
    cases r <;> simp [Except.map]
  case unverified =>
    intro map expected found
    rw [← rewritten_unverified_iff, hiff]
    cases r <;> simp [Except.map]
  case applied =>
    rw [← rewritten_ok_iff, hiff]
    cases r <;> simp [Except.map]

-- ============================================================ the protocol

/-- What a negotiation requests, and what it ends with. -/
structure Protocol (k : UInt16) (pdo : Pdo) (target : List Pdo.Entry) (capacity : Option Nat)
    (t : Bus.interface.Trace) (r : Except Error Outcome) : Prop where
  tooLarge {map : UInt16} {bits room : Nat} :
    r = .error (.tooLarge map bits room)
      ↔ TooLarge target capacity ∧ map = pdo.index ∧ bits = Pdo.totalBits target
        ∧ room = capacity.getD bits
  unasked : TooLarge target capacity → t = []
  unchanged : r = .ok .unchanged ↔ ∃ u, u <+: t ∧ Holds k pdo.index target u
  untouched : r = .ok .unchanged → writes t = []
  /-- Otherwise the mapping was not as wanted at the first look, and neither that look
  nor the one at the assignment writes anything. -/
  rewritten : ¬ TooLarge target capacity → r ≠ .ok .unchanged →
    ∃ looks e found u, t = looks ++ e :: u ∧ Differs k pdo.index target looks
      ∧ ReadsAs k (count pdo.assign) e found ∧ writes (looks ++ [e]) = []
      ∧ Rewrite k pdo target (restored found) u r
  /-- A write that is refused is the last request. -/
  careful {before after : Bus.interface.Trace} {e : Bus.interface.Event} :
    t = before ++ e :: after → IsRefusal e → after = []

theorem Rewritten.ne_tooLarge {bits room : Nat} :
    ¬ Rewritten k pdo target assignment t (.error (.tooLarge map bits room)) := by
  intro h
  cases h with
  | carried hverified => cases hverified

/-- The result says so just if the target is too large, with the bits that it takes and those
that there are. -/
theorem Course.tooLarge_iff {bits room : Nat} {r : Except Error Outcome}
    (h : Course k pdo target capacity t r) :
    r = .error (.tooLarge map bits room)
      ↔ TooLarge target capacity ∧ map = pdo.index ∧ bits = Pdo.totalBits target
        ∧ room = capacity.getD bits := by
  constructor
  · intro hr
    cases h with
    | tooLarge hlarge =>
      cases hr
      exact ⟨hlarge, rfl, rfl, rfl⟩
    | unchanged => cases hr
    | @rewritten _ _ _ _ r _ _ _ hrewritten =>
      cases r with
      | ok => cases hr
      | error e =>
        cases hr
        exact absurd hrewritten Rewritten.ne_tooLarge
  · intro hr
    obtain ⟨hlarge, rfl, rfl, rfl⟩ := hr
    cases h with
    | tooLarge => rfl
    | unchanged hfits => exact absurd hlarge hfits
    | rewritten hfits => exact absurd hlarge hfits

/-- Nothing is changed just if the mapping was found to hold. -/
theorem Course.unchanged_iff {r : Except Error Outcome} (h : Course k pdo target capacity t r) :
    r = .ok .unchanged ↔ ∃ u, u <+: t ∧ Holds k pdo.index target u := by
  constructor
  · intro hr
    cases h with
    | tooLarge => cases hr
    | unchanged _ hholds => exact ⟨t, List.prefix_rfl, hholds⟩
    | @rewritten _ _ _ _ r _ _ _ _ => cases r <;> cases hr
  · intro hr
    obtain ⟨u, ⟨v, htrace⟩, hholds⟩ := hr
    have hcurrent := runs_isCurrent_iff.2 (.inl ⟨rfl, hholds⟩)
    cases h with
    | tooLarge =>
      obtain ⟨rfl, -⟩ := List.append_eq_nil_iff.1 htrace
      cases hholds
    | unchanged => rfl
    | rewritten _ hdiffers _ _ =>
      -- both looks begin the trace, so they are the same look
      have hother := runs_isCurrent_iff.2 (.inr ⟨rfl, hdiffers⟩)
      cases (hcurrent.unique hother htrace).2

/-- A negotiation that does not fail by its size, or find the mapping there, rewrites
it. -/
theorem Course.rewrite {r : Except Error Outcome} (h : Course k pdo target capacity t r)
    (hfits : ¬ TooLarge target capacity) (hchanged : r ≠ .ok .unchanged) :
    ∃ looks e found u, t = looks ++ e :: u ∧ Differs k pdo.index target looks
      ∧ ReadsAs k (count pdo.assign) e found ∧ writes (looks ++ [e]) = []
      ∧ Rewrite k pdo target (restored found) u r := by
  cases h with
  | tooLarge hlarge => exact absurd hlarge hfits
  | unchanged => exact absurd rfl hchanged
  | @rewritten looks u e found r _ hdiffers hread hrewritten =>
    have hlooks : writes looks = [] :=
      writes_of_reads (isWrite_of_isCurrent (runs_isCurrent_iff.2 (.inr ⟨rfl, hdiffers⟩)))
    refine ⟨looks, e, found, u, rfl, hdiffers, hread, ?_, hrewritten.rewrite⟩
    rw [writes_append, hlooks, writes_readsAs hread]
    rfl

/-- Whatever the bus answers, a negotiation keeps to the protocol. -/
theorem negotiate_protocol {r : Except Error Outcome}
    (h : Runs (negotiate k pdo target capacity) t r) : Protocol k pdo target capacity t r := by
  have hcourse := runs_negotiate_iff.1 h
  constructor
  case tooLarge => exact hcourse.tooLarge_iff
  case unchanged => exact hcourse.unchanged_iff
  case rewritten => exact hcourse.rewrite
  case unasked =>
    intro hlarge
    cases hcourse with
    | tooLarge => rfl
    | unchanged hfits => exact absurd hlarge hfits
    | rewritten hfits => exact absurd hlarge hfits
  case untouched =>
    intro hr
    cases hcourse with
    | tooLarge => cases hr
    | unchanged _ hholds =>
      exact writes_of_reads (isWrite_of_isCurrent (runs_isCurrent_iff.2 (.inl ⟨rfl, hholds⟩)))
    | @rewritten _ _ _ _ r _ _ _ _ => cases r <;> cases hr
  case careful =>
    intro before after e htrace hrefusal
    rcases List.eq_nil_or_concat after with rfl | ⟨after, last, rfl⟩
    · rfl
    · refine absurd hrefusal (hcourse.not_isRefusal e ?_)
      rw [htrace, List.concat_eq_append, ← List.cons_append, ← List.append_assoc,
        List.dropLast_concat]
      exact List.mem_append_right _ List.mem_cons_self

/-- One drive, which has no transmit mapping and refuses the third entry of one. -/
def unwilling : Simulation.Segment :=
  { slaves := [{
      al := .preOperational
      dictionary := Dictionary.initial.setMapping Pdo.transmit.index [] }]
    discovered := true
    failingWrites := [⟨Pdo.transmit.index, 3⟩] }

def unwillingRun : Bus.interface.Trace × Except Error Outcome × Simulation.Segment :=
  (negotiate 1 .transmit Pdo.defaultTransmit none).record Simulation.Segment.answer unwilling

theorem unwillingRun_runs :
    Runs (negotiate 1 .transmit Pdo.defaultTransmit none) unwillingRun.1
      (.error (.failed 0x1a00 (.writeEntry 3) (.sdo 1 ⟨0x1a00, 3⟩ 0x08000000))) :=
  runs_record ..

/-- The refused entry is named, and nothing follows it. -/
theorem negotiate_protocol_unwilling :
    Protocol 1 .transmit Pdo.defaultTransmit none unwillingRun.1
      (.error (.failed 0x1a00 (.writeEntry 3) (.sdo 1 ⟨0x1a00, 3⟩ 0x08000000))) :=
  negotiate_protocol unwillingRun_runs

end Negotiation

end Servo
