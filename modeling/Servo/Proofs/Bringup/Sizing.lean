/-
Whether a drive that was brought up exchanges as many bits as it was asked for.

The configuration asks for bits, the process image is made of bytes, and the only
comparison of the two is the one that follows the layout of the image: the bits are
rounded up to bytes and each direction must have as many. So an image that passed has
enough bits (`sized_iff`), and nothing is brought up with fewer.

# The limit of the numbers

The sum on the way to the bytes is computed in 64 bits, and there are configurations that
are accepted and leave them (`Rounds`). With one of these nothing is brought up: as soon
as the image is laid out everything comes down (`comesDown_stages`), the bus is left open
and no slave is asked back. `enough_or_panicked` has both, and says that a bring-up comes
down for no other reason.
-/
import Servo.Proofs.Bringup.SafeOutputs

namespace Servo.Bringup

open Program Bus

variable {α β : Type} {c : Config} {layout : Layout} {name : String} {slaves : UInt16}
  {t : Trace} {report : Report} {image : SlaveImage} {required : UInt64}

-- ============================================================ rounding

/-- The bits can be rounded up to bytes in 64 bits. -/
def Rounds (c : Config) : Prop := c.minProcessBits.toNat + 7 < UInt64.size

instance (c : Config) : Decidable (Rounds c) := inferInstanceAs (Decidable (_ < _))

/-- What is required can be computed just if rounding up stays a word. -/
theorem requiredBytes?_eq_none_iff : requiredBytes? c = none ↔ ¬ Rounds c := by
  unfold requiredBytes? Rounds
  split <;> simp [*]

/-- What is required is the number of bits, rounded up to bytes. -/
theorem toNat_of_requiredBytes? (h : requiredBytes? c = some required) :
    Rounds c ∧ required.toNat = (c.minProcessBits.toNat + 7) / 8 := by
  by_cases hrounds : Rounds c
  · have hbits : c.minProcessBits.toNat + 7 < UInt64.size := hrounds
    unfold requiredBytes? at h
    rw [if_pos hbits] at h
    obtain rfl := Option.some.inj h
    have hsum : (c.minProcessBits + 7).toNat = c.minProcessBits.toNat + 7 :=
      (UInt64.toNat_add _ _).trans (Nat.mod_eq_of_lt hbits)
    refine ⟨hrounds, ?_⟩
    rw [UInt64.toNat_div, hsum]
    rfl
  · rw [requiredBytes?_eq_none_iff.2 hrounds] at h
    cases h

-- ============================================================ the check

/-- Both directions of an image have the bits that are asked for. -/
def Enough (c : Config) (image : SlaveImage) : Prop :=
  c.minProcessBits.toNat ≤ 8 * image.outputBytes ∧ c.minProcessBits.toNat ≤ 8 * image.inputBytes

/-- An image is large enough just if both directions are. -/
theorem checkImage_eq_ok_iff {bytes : Nat} :
    checkImage c bytes image = .ok () ↔ bytes ≤ image.outputBytes ∧ bytes ≤ image.inputBytes := by
  unfold checkImage
  by_cases houtputs : image.outputBytes < bytes
  · simp only [if_pos houtputs]
    exact ⟨nofun, fun h => absurd houtputs (Nat.not_lt.2 h.1)⟩
  · by_cases hinputs : image.inputBytes < bytes
    · simp only [if_neg houtputs, if_pos hinputs]
      exact ⟨nofun, fun h => absurd hinputs (Nat.not_lt.2 h.2)⟩
    · simp only [if_neg houtputs, if_neg hinputs]
      exact ⟨fun _ => ⟨Nat.not_lt.1 houtputs, Nat.not_lt.1 hinputs⟩, fun _ => rfl⟩

/-- An image is found large enough exactly if it is, and the comparison can be made. -/
theorem sized_iff : Sized c image ↔ Rounds c ∧ Enough c image := by
  unfold Sized Enough
  constructor
  · intro h
    obtain ⟨required, hrequired, hcheck⟩ := h
    obtain ⟨hrounds, hbytes⟩ := toNat_of_requiredBytes? hrequired
    obtain ⟨houtputs, hinputs⟩ := checkImage_eq_ok_iff.1 hcheck
    exact ⟨hrounds, by omega, by omega⟩
  · intro h
    obtain ⟨hrounds, houtputs, hinputs⟩ := h
    cases hrequired : requiredBytes? c with
    | none => exact absurd hrounds (requiredBytes?_eq_none_iff.1 hrequired)
    | some required =>
      obtain ⟨-, hbytes⟩ := toNat_of_requiredBytes? hrequired
      exact ⟨required, rfl, checkImage_eq_ok_iff.2 ⟨by omega, by omega⟩⟩

-- ========================================================== coming down

/-- A stage in which the image is not laid out without everything coming down. -/
structure ComesDown (p : Stage α) : Prop where
  result : ∀ {t r map}, Runs p.run t r → ⟨.map, .ok map⟩ ∈ t → r = .error .panicked

/-- Stages in sequence come down if whatever the first one passes on makes the second one do
so. -/
theorem ComesDown.bind {p : Stage α} {f : α → Stage β} (hp : ComesDown p)
    (hf : ∀ {u a}, Runs p.run u (.ok a) → ComesDown (f a)) : ComesDown (p >>= f) where
  result {t r map} hrun hmem := by
    cases r with
    | error stop =>
      rcases runs_bind_error_iff.1 hrun with hfirst | ⟨u, a, v, rfl, hfirst, hrest⟩
      · cases hp.result hfirst hmem
        rfl
      · rcases List.mem_append.1 hmem with hmem | hmem
        · cases hp.result hfirst hmem
        · exact (hf hfirst).result hrest hmem
    | ok b =>
      obtain ⟨u, a, v, rfl, hfirst, hrest⟩ := runs_bind_ok_iff.1 hrun
      rcases List.mem_append.1 hmem with hmem | hmem
      · cases hp.result hfirst hmem
      · exact (hf hfirst).result hrest hmem

/-- A stage that does not lay out the image. -/
theorem comesDown_of_only {p : Stage α} (hp : p.run.Only fun r : Bus.Request => r ≠ .map) :
    ComesDown p where
  result hrun hmem := absurd rfl (hp.of_runs hrun _ hmem)

/-- Where the bytes cannot be computed, laying out the image is the last thing done. -/
theorem comesDown_prepareImage (hwide : ¬ Rounds c) : ComesDown (prepareImage c layout) := by
  have hnone := requiredBytes?_eq_none_iff.2 hwide
  refine ⟨fun {t r map} hrun hmem => ?_⟩
  unfold prepareImage at hrun
  rw [hnone] at hrun
  cases r with
  | ok =>
    obtain ⟨_, _, _, -, -, hrun⟩ := runs_bind_ok_iff.1 hrun
    obtain ⟨_, _, _, -, hcomputed, -⟩ := runs_bind_ok_iff.1 hrun
    cases (runs_computed_ok_iff.1 hcomputed).2
  | error stop =>
    rcases runs_bind_error_iff.1 hrun with hmap | ⟨_, _, _, -, -, hrun⟩
    · -- a layout that failed is not one that was made
      obtain ⟨answer, hanswer, hperform⟩ := runs_failing_iff.1 hmap
      rw [runs_perform_iff.1 hperform] at hmem
      cases List.mem_singleton.1 hmem
      cases hanswer
    · rcases runs_bind_error_iff.1 hrun with hcomputed | ⟨_, _, _, -, hcomputed, -⟩
      · cases (runs_computed_iff.1 hcomputed).2
        rfl
      · cases (runs_computed_ok_iff.1 hcomputed).2

/-- If rounding up leaves the word, the stages come down right behind the image. -/
theorem comesDown_stages (hwide : ¬ Rounds c) : ComesDown (stages c layout slaves) := by
  have hstates (target : AlState) : ComesDown (bringTo c.timing target (slavesOf slaves)) :=
    comesDown_of_only (only_bringTo (P := fun r => r ≠ .map) (fun _ => ⟨nofun, nofun⟩)
      (fun _ => nofun) fun _ _ => nofun)
  have hfail (e : Error) : ComesDown (fail e : Stage Unit) := comesDown_of_only (only_pure _)
  have hdictionary (r : Bus.Request) (hr : r.part = .dictionary) : r ≠ .map := by
    rintro rfl
    cases hr
  unfold stages
  by_cases hzero : slaves = 0
  · rw [if_pos hzero]
    exact (hfail _).bind fun hrun => nomatch (runs_pure_iff.1 hrun).2
  by_cases hmissing : slaves < c.slave
  · rw [if_neg hzero, if_pos hmissing]
    exact (hfail _).bind fun hrun => nomatch (runs_pure_iff.1 hrun).2
  rw [if_neg hzero, if_neg hmissing]
  refine (hstates _).bind fun _ => (hstates _).bind fun _ => ?_
  refine (comesDown_of_only (only_writeParameters hdictionary)).bind fun _ => ?_
  refine (comesDown_of_only (only_lift (concerns_negotiateMappings.mono fun r hr =>
    hdictionary r hr.1))).bind fun _ => ?_
  refine (comesDown_of_only (only_lift (only_perform (r := .clocks) nofun))).bind fun _ => ?_
  refine (comesDown_prepareImage hwide).bind fun hprepared => ?_
  exact absurd (sized_iff.1 (prepareImage_requests hprepared).1).1 hwide

-- ============================================================ the whole

/-- With too many bits to round, a bring-up comes down once the image is laid out. -/
theorem run_comesDown {result : Except Stop Report} {map : ImageMap} (hwide : ¬ Rounds c)
    (hrun : Runs (run c layout name) t result) (hmem : ⟨.map, .ok map⟩ ∈ t) :
    result = .error .panicked := by
  have hopen : ComesDown (openBus name) := comesDown_of_only (only_openBus nofun nofun)
  have hdown : ComesDown (openBus name >>= stages c layout) :=
    hopen.bind fun _ => comesDown_stages hwide
  cases runs_run hrun with
  | ok _ hstages => exact hdown.result hstages hmem
  | failed _ hstages _ hrelease =>
    rcases List.mem_append.1 hmem with hbefore | hafter
    · cases hdown.result hstages hbefore
    · -- no image is laid out on the way out
      have hrequest : Bus.Request.map ∈ requests _ := List.mem_map_of_mem hafter
      rw [runs_release hrelease] at hrequest
      simp at hrequest
  | panicked => rfl

/-- A drive that was brought up exchanges as many bits as it was asked for, each way, and as
many can be rounded to bytes. A bring-up comes down exactly if they cannot and the image was
laid out; that is then the last that was requested of the bus, which is left open. -/
theorem enough_or_panicked {result : Except Stop Report}
    (hrun : Runs (run c layout name) t result) :
    (∀ report, result = .ok report →
      Rounds c ∧ Enough c ((report.image.slave? c.slave).getD ⟨0, 0⟩))
      ∧ (result = .error .panicked ↔ ¬ Rounds c ∧ ∃ map, ⟨.map, .ok map⟩ ∈ t)
      ∧ (result = .error .panicked →
        .close ∉ requests t ∧ ∃ before map, t = before ++ [⟨.map, .ok map⟩]) := by
  have hdown (h : result = .error .panicked) : requiredBytes? c = none
      ∧ .close ∉ requests t ∧ ∃ before map, t = before ++ [⟨.map, .ok map⟩] := by
    subst h
    cases runs_run hrun with
    | panicked hkeeps _ hexit =>
      obtain ⟨before, last, ht, hexit⟩ := hexit
      generalize found t = slaves at hexit
      cases hexit with
      | overflowed map hnone => exact ⟨hnone, not_close_of_keeps hkeeps, before, map, ht⟩
  refine ⟨?_, ⟨fun h => ?_, fun h => ?_⟩, fun h => (hdown h).2⟩
  · rintro report rfl
    obtain ⟨slaves, u, -, hstages⟩ := runs_run_ok hrun
    obtain ⟨-, -, -, -, s, -⟩ := exists_staged hstages
    exact sized_iff.1 (prepareImage_requests s.image_runs).1
  · obtain ⟨hnone, -, before, map, rfl⟩ := hdown h
    exact ⟨requiredBytes?_eq_none_iff.1 hnone, map, by simp⟩
  · obtain ⟨hwide, map, hmem⟩ := h
    exact run_comesDown hwide hrun hmem

/-- A configuration that asks for as many bits as can be written. -/
def greedy : Config := { minProcessBits := 0xffffffffffffffff }

/-- What bringing up a new drive with it requests. -/
def greedyRun : Trace × Except Stop Report × Simulation.Segment :=
  (run greedy .standard "eth0").record Simulation.Segment.answer (Simulation.Segment.ofCount 1)

theorem greedyRun_runs : Runs (run greedy .standard "eth0") greedyRun.1 (.error .panicked) :=
  runs_record ..

/-- It comes down, and leaves a bus that nobody closed. -/
theorem enough_or_panicked_greedy :
    ¬ Rounds greedy ∧ .close ∉ requests greedyRun.1
      ∧ ∃ before map, greedyRun.1 = before ++ [⟨.map, .ok map⟩] := by
  obtain ⟨-, hpanicked, hleft⟩ := enough_or_panicked greedyRun_runs
  exact ⟨(hpanicked.1 rfl).1, hleft rfl⟩

/-- An accepted configuration does not keep the computation of its size from overflowing. -/
theorem not_never_overflows : ¬ ∀ (c : Config) (layout : Layout) (name : String) (t : Trace)
    (result : Except Stop Report), c.validate = .ok () → Runs (run c layout name) t result →
    (∀ report, result = .ok report →
      Enough c ((report.image.slave? c.slave).getD ⟨0, 0⟩))
      ∧ result ≠ .error .panicked := by
  intro h
  have hpromised := h greedy .standard "eth0" greedyRun.1 (.error .panicked) rfl greedyRun_runs
  exact hpromised.2 rfl

end Servo.Bringup
