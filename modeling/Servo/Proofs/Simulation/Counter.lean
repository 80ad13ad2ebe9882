/-
The working counter of a segment, and the one that its image lets expect.

Both are words. The expected one is computed from the number of slaves and stops at the
largest word; the counted one is added up slave by slave, and is right for as long as
none of the additions wraps around. That is so exactly if the true sum is a word
(`addsUp_iff`), which it is for up to 21845 slaves, however many of them take part: the
counter then reaches what is expected just if every slave is operational and nothing
is left to be degraded (`reaches_expected_iff`).

# Larger segments

With more slaves a full cycle counts more than a word holds, so what is expected stays
behind it, and a cycle in which some slaves are missing can be as good
(`not_reaches_expected`). What decides then is the true sum, where it is counted
correctly.
-/
import Servo.Proofs.Bringup.Success
import Servo.Proofs.Simulation.Segment

namespace Servo.Simulation

-- ============================================================== slaves

namespace Slave

variable {s : Slave}

/-- What a slave adds to the working counter. -/
def count (s : Slave) : Nat := s.exchange.2.toNat

/-- An operational slave counts for its outputs and its inputs, one in the safe state for
its inputs alone. -/
theorem count_eq (s : Slave) :
    s.count = if s.al = .operational then 3 else if s.al = .safeOperational then 1 else 0 := by
  unfold count exchange
  cases s.al <;> rfl

/-- No slave counts more than three: twice for its outputs, once for its inputs. -/
theorem count_le (s : Slave) : s.count ≤ 3 := by
  rw [count_eq]
  split
  next => exact Nat.le_refl 3
  next => split <;> decide

/-- Only an operational slave counts in full. -/
theorem count_eq_three_iff : s.count = 3 ↔ s.al = .operational := by
  rw [count_eq]
  split
  next h => exact ⟨fun _ => h, fun _ => rfl⟩
  next h =>
    refine ⟨fun hcount => ?_, fun hal => absurd hal h⟩
    split at hcount <;> cases hcount

/-- What slaves add to the working counter, one with the other. -/
def total : List Slave → Nat
  | [] => 0
  | s :: rest => s.count + total rest

/-- Slaves that are all alike add the same each. -/
theorem total_replicate (n : Nat) (s : Slave) : total (List.replicate n s) = n * s.count := by
  induction n with
  | zero => exact (Nat.zero_mul _).symm
  | succ n ih =>
    rw [List.replicate_succ, Nat.succ_mul, Nat.add_comm, ← ih]
    rfl

/-- What slaves add is a matter of their states. -/
theorem total_congr {slaves slaves' : List Slave} (h : slaves'.map al = slaves.map al) :
    total slaves' = total slaves := by
  induction slaves generalizing slaves' with
  | nil => rw [List.map_eq_nil_iff.1 h]
  | cons s rest ih =>
    obtain ⟨s', rest', rfl, hal, hrest⟩ := List.map_eq_cons_iff.1 h
    rw [total, total, ih hrest, count_eq, count_eq, hal]

/-- Slaves add three each at most, so a segment of 21845 still fits a word. -/
theorem total_le (slaves : List Slave) : total slaves ≤ 3 * slaves.length := by
  induction slaves with
  | nil => exact Nat.le_refl 0
  | cons s rest ih =>
    have hcount := s.count_le
    rw [total, List.length_cons]
    omega

/-- No slave makes up for another one. -/
theorem total_eq_iff (slaves : List Slave) :
    total slaves = 3 * slaves.length ↔ ∀ s ∈ slaves, s.al = .operational := by
  induction slaves with
  | nil => exact ⟨fun _ s hs => absurd hs List.not_mem_nil, fun _ => rfl⟩
  | cons s rest ih =>
    have hcount := s.count_le
    have hrest := total_le rest
    rw [List.forall_mem_cons, ← ih, ← count_eq_three_iff, total, List.length_cons]
    omega

@[simp] theorem readOutputs_al (s : Slave) : s.readOutputs.al = s.al := by
  unfold readOutputs
  dsimp only
  split <;> rfl

@[simp] theorem writeInputs_al (s : Slave) : s.writeInputs.al = s.al := rfl

/-- An exchange moves no slave to another state. -/
theorem exchange_al (s : Slave) : s.exchange.1.al = s.al := by
  unfold exchange
  split <;> simp

-- ============================================================= counting

/-- The counter after some slaves, in a word. -/
def counted (slaves : List Slave) : UInt16 := ((slaves.map exchange).map Prod.snd).foldl (· + ·) 0

/-- Slave by slave, what is counted stays a word. -/
def AddsUpFrom (counter : UInt16) : List Slave → Prop
  | [] => True
  | s :: rest => counter.toNat + s.count < UInt16.size ∧ AddsUpFrom (counter + s.exchange.2) rest

/-- An addition that does not wrap around is the true one. -/
theorem toNat_add_exchange {counter : UInt16} (h : counter.toNat + s.count < UInt16.size) :
    (counter + s.exchange.2).toNat = counter.toNat + s.count := by
  rw [UInt16.toNat_add]
  exact Nat.mod_eq_of_lt h

/-- No addition wraps around just if the last one does not. -/
theorem addsUpFrom_iff {slaves : List Slave} {counter : UInt16} :
    AddsUpFrom counter slaves ↔ counter.toNat + total slaves < UInt16.size := by
  induction slaves generalizing counter with
  | nil => exact ⟨fun _ => counter.toNat_lt, fun _ => trivial⟩
  | cons s rest ih =>
    rw [total, ← Nat.add_assoc]
    constructor
    · intro h
      obtain ⟨hadd, hrest⟩ := h
      rw [← toNat_add_exchange hadd]
      exact ih.1 hrest
    · intro h
      have hadd : counter.toNat + s.count < UInt16.size :=
        Nat.lt_of_le_of_lt (Nat.le_add_right ..) h
      refine ⟨hadd, ih.2 ?_⟩
      rwa [toNat_add_exchange hadd]

/-- If none wraps around, the counter is the true sum. -/
theorem toNat_foldl_of_addsUpFrom {slaves : List Slave} {counter : UInt16}
    (h : AddsUpFrom counter slaves) :
    (((slaves.map exchange).map Prod.snd).foldl (· + ·) counter).toNat
      = counter.toNat + total slaves := by
  induction slaves generalizing counter with
  | nil => rfl
  | cons s rest ih =>
    obtain ⟨hadd, hrest⟩ := h
    rw [List.map_cons, List.map_cons, List.foldl_cons, ih hrest, toNat_add_exchange hadd,
      total, Nat.add_assoc]

end Slave

-- ============================================================ segments

namespace Segment

variable {g g' g₀ g₁ : Segment} {image : Bus.ImageMap}

/-- None of the additions of an exchange wraps around. -/
def AddsUp (g : Segment) : Prop := Slave.AddsUpFrom 0 g.slaves

/-- Nothing wraps around just if the true sum is a word. -/
theorem addsUp_iff : g.AddsUp ↔ Slave.total g.slaves < UInt16.size := by
  unfold AddsUp
  rw [Slave.addsUpFrom_iff, UInt16.toNat_zero, Nat.zero_add]

/-- Whether it does hangs on the states of the slaves alone. -/
theorem addsUp_congr (h : g'.slaves.map Slave.al = g.slaves.map Slave.al) :
    g'.AddsUp ↔ g.AddsUp := by
  rw [addsUp_iff, addsUp_iff, Slave.total_congr h]

/-- Laying the image out leaves the states, and so the sum. -/
theorem addsUp_of_map (hmap : answer .map g₀ = (.ok image, g₁)) : g₁.AddsUp ↔ g₀.AddsUp := by
  have hdiscovered := discovered_of_map hmap
  have hanswer : g₀.map = (.ok image, g₁) := hmap
  unfold map at hanswer
  rw [if_neg (by simp [hdiscovered])] at hanswer
  cases hanswer
  refine addsUp_congr ?_
  rw [List.map_map]
  rfl

/-- The process image does not decide whether an exchange adds up. -/
theorem addsUp_answer {r : Bus.Request} (h : r.part = .image) :
    (answer r g).2.AddsUp ↔ g.AddsUp := by
  cases r with
  | outputs | inputs => exact Iff.rfl
  | setOutputs slave bytes =>
    show (g.setOutputs slave bytes).AddsUp ↔ _
    unfold setOutputs
    split
    next => exact Iff.rfl
    next s hslave => exact addsUp_congr (map_setSlave hslave rfl)
  | exchange =>
    have hals : (g.slaves.map Slave.exchange).map (fun r => r.1.al) = g.slaves.map Slave.al := by
      rw [List.map_map]
      exact List.map_congr_left fun s _ => s.exchange_al
    show g.exchange.2.AddsUp ↔ _
    unfold exchange
    split
    next => exact Iff.rfl
    next =>
      refine addsUp_congr ?_
      dsimp only
      split
      · rw [List.map_map]
        exact hals
      · rw [List.map_map]
        exact hals
  | _ => cases h

/-- However the process image was used, the next exchange adds up as before. -/
theorem addsUp_stateAfter {t : Bus.interface.Trace} (h : ∀ e ∈ t, e.1.part = .image) :
    (Program.stateAfter answer g t).AddsUp ↔ g.AddsUp := by
  induction t generalizing g with
  | nil => exact Iff.rfl
  | cons e t ih =>
    obtain ⟨he, hrest⟩ := List.forall_mem_cons.1 h
    exact (ih hrest).trans (addsUp_answer he)

/-- What the next exchange loses of its counter. -/
def lost (g : Segment) : Nat := if g.degraded = 0 then 0 else 1

/-- An exchange answers the true sum, less what is lost of it. -/
theorem exchange_counts (hmapped : g.mapped = true) (hadds : g.AddsUp) :
    ∃ wkc g', answer .exchange g = (.ok wkc, g') ∧ wkc.toNat = Slave.total g.slaves - g.lost := by
  have hcounted : (Slave.counted g.slaves).toNat = Slave.total g.slaves := by
    unfold Slave.counted
    rw [Slave.toNat_foldl_of_addsUpFrom hadds, UInt16.toNat_zero, Nat.zero_add]
  show ∃ wkc g', g.exchange = (.ok wkc, g') ∧ _
  unfold exchange lost
  rw [if_neg (by simp [hmapped])]
  dsimp only
  by_cases hdegraded : g.degraded = 0
  · rw [if_pos hdegraded, if_pos hdegraded]
    exact ⟨_, _, rfl, hcounted⟩
  · rw [if_neg hdegraded, if_neg hdegraded]
    refine ⟨_, _, rfl, ?_⟩
    show (if Slave.counted g.slaves = 0 then 0 else Slave.counted g.slaves - 1).toNat = _
    split
    next hzero =>
      rw [← hcounted, hzero]
      rfl
    next hzero =>
      have hone : 1 ≤ Slave.counted g.slaves := by
        rw [UInt16.le_iff_toNat_le]
        exact Nat.one_le_iff_ne_zero.2 fun h => hzero (UInt16.toNat_inj.1 h)
      rw [UInt16.toNat_sub_of_le _ _ hone, hcounted]
      rfl

/-- Laying the image out leaves the number of slaves. -/
theorem length_of_map (hmap : answer .map g₀ = (.ok image, g₁)) :
    g₁.slaves.length = g₀.slaves.length := by
  have hdiscovered := discovered_of_map hmap
  have hanswer : g₀.map = (.ok image, g₁) := hmap
  unfold map at hanswer
  rw [if_neg (by simp [hdiscovered])] at hanswer
  cases hanswer
  exact List.length_map ..

/-- What the image of a segment lets expect: thrice the number of slaves, as far as a word
reaches. -/
theorem toNat_expectedWkc_of_map (hmap : answer .map g₀ = (.ok image, g₁))
    (hfew : g₀.slaves.length < UInt16.size) :
    image.expectedWkc.toNat = min 65535 (3 * g₀.slaves.length) := by
  have hdiscovered := discovered_of_map hmap
  have hanswer : g₀.map = (.ok image, g₁) := hmap
  unfold map at hanswer
  rw [if_neg (by simp [hdiscovered])] at hanswer
  cases hanswer
  rw [Bus.ImageMap.toNat_expectedWkc, UInt16.toNat_ofNat_of_lt' hfew]
  congr 1
  omega

-- ============================================================ the whole

/-- A segment that was mapped counts what its image lets expect. Up to 21845 slaves no
addition wraps around, and the expected counter is reached just if every slave is
operational and no exchange is to be degraded, whatever the states of the slaves are.
With more of them the expected counter is the largest word; where no addition wraps
around, it is reached just if the slaves make it up and no exchange is to be degraded. -/
theorem reaches_expected_iff (hmap : answer .map g₀ = (.ok image, g₁)) (hmapped : g.mapped = true)
    (hcount : g.slaves.length = g₁.slaves.length) (hsome : 0 < g.slaves.length)
    (hfew : g.slaves.length < UInt16.size) :
    (g.slaves.length ≤ 21845 →
        g.AddsUp ∧ ∃ wkc g', answer .exchange g = (.ok wkc, g')
          ∧ (image.expectedWkc ≤ wkc
            ↔ (∀ s ∈ g.slaves, s.al = .operational) ∧ g.degraded = 0))
      ∧ (21845 < g.slaves.length → image.expectedWkc = 65535
        ∧ (g.AddsUp → ∃ wkc g', answer .exchange g = (.ok wkc, g')
          ∧ (image.expectedWkc ≤ wkc ↔ Slave.total g.slaves = 65535 ∧ g.degraded = 0))) := by
  rw [length_of_map hmap] at hcount
  have hexpected := toNat_expectedWkc_of_map hmap (hcount ▸ hfew)
  rw [← hcount] at hexpected
  have htotal := Slave.total_le g.slaves
  have hlost : g.lost = 0 ↔ g.degraded = 0 := by
    unfold lost
    split
    next h => exact ⟨fun _ => h, fun _ => rfl⟩
    next h => exact ⟨nofun, fun hzero => absurd hzero h⟩
  constructor
  · intro hfits
    have hadds : g.AddsUp := addsUp_iff.2 (by simp only [UInt16.size]; omega)
    refine ⟨hadds, ?_⟩
    obtain ⟨wkc, g', hanswer, hwkc⟩ := exchange_counts hmapped hadds
    refine ⟨wkc, g', hanswer, ?_⟩
    rw [UInt16.le_iff_toNat_le, hexpected, hwkc, ← Slave.total_eq_iff, ← hlost]
    omega
  · intro hmany
    have hlargest : image.expectedWkc.toNat = 65535 := by omega
    refine ⟨UInt16.toNat_inj.1 hlargest, fun hadds => ?_⟩
    have hword := addsUp_iff.1 hadds
    simp only [UInt16.size] at hword
    obtain ⟨wkc, g', hanswer, hwkc⟩ := exchange_counts hmapped hadds
    refine ⟨wkc, g', hanswer, ?_⟩
    rw [UInt16.le_iff_toNat_le, hexpected, hwkc, ← hlost]
    omega

/-- One drive that is not started yet, beside as many operational ones as a word can count. -/
def crowded : Segment where
  slaves := {} :: List.replicate 21845 { al := .operational }
  isOpen := true
  discovered := true
  mapped := true

theorem length_crowded : crowded.slaves.length = 21846 := by
  show ({} :: List.replicate 21845 _ : List Slave).length = 21846
  rw [List.length_cons, List.length_replicate]

theorem total_crowded : Slave.total crowded.slaves = 65535 := by
  unfold crowded
  rw [Slave.total, Slave.total_replicate, Slave.count_eq, Slave.count_eq]
  rfl

theorem addsUp_crowded : crowded.AddsUp := by
  rw [addsUp_iff, total_crowded]
  decide

/-- A drive in operational, and one on the way there. -/
def halfway : Segment where
  slaves := [{ al := .operational }, { al := .safeOperational }]
  isOpen := true
  discovered := true
  mapped := true

/-- The two of them do not count enough; the crowd does, although one drive is missing. -/
theorem reaches_expected_iff_crowded :
    (∃ image wkc g₁ g', answer .map halfway = (.ok image, g₁)
        ∧ answer .exchange halfway = (.ok wkc, g') ∧ ¬ image.expectedWkc ≤ wkc)
      ∧ ∃ image wkc g₁ g', answer .map crowded = (.ok image, g₁)
        ∧ answer .exchange crowded = (.ok wkc, g') ∧ image.expectedWkc ≤ wkc := by
  constructor
  · obtain ⟨image, g₁, hmap⟩ := answer_map_ok (g := halfway) rfl
    obtain ⟨-, wkc, g', hanswer, hreached⟩ :=
      (reaches_expected_iff hmap rfl (length_of_map hmap).symm (by decide) (by decide)).1
        (by decide)
    exact ⟨image, wkc, g₁, g', hmap, hanswer, fun h => absurd (hreached.1 h).1 (by decide)⟩
  · obtain ⟨image, g₁, hmap⟩ := answer_map_ok (g := crowded) rfl
    obtain ⟨-, hcounts⟩ :=
      (reaches_expected_iff hmap rfl (length_of_map hmap).symm (by rw [length_crowded]; decide)
        (by rw [length_crowded]; decide)).2 (by rw [length_crowded]; decide)
    obtain ⟨wkc, g', hanswer, hreached⟩ := hcounts addsUp_crowded
    exact ⟨image, wkc, g₁, g', hmap, hanswer, hreached.2 ⟨total_crowded, rfl⟩⟩

/-- In a large segment the expected counter is reached without all of the slaves. -/
theorem not_reaches_expected : ¬ ∀ (g₀ g₁ g : Segment) (image : Bus.ImageMap),
    answer .map g₀ = (.ok image, g₁) → g.mapped = true →
    g.slaves.length = g₁.slaves.length → 0 < g.slaves.length → g.slaves.length < UInt16.size →
    g.AddsUp ∧ ∃ wkc g', answer .exchange g = (.ok wkc, g')
      ∧ (image.expectedWkc ≤ wkc ↔ (∀ s ∈ g.slaves, s.al = .operational) ∧ g.degraded = 0) := by
  intro h
  obtain ⟨image, g₁, hmap⟩ := answer_map_ok (g := crowded) rfl
  obtain ⟨-, wkc, g', hanswer, hreached⟩ := h crowded g₁ crowded image hmap rfl
    (length_of_map hmap).symm (by rw [length_crowded]; decide) (by rw [length_crowded]; decide)
  have hexpected := toNat_expectedWkc_of_map hmap (by rw [length_crowded]; decide)
  obtain ⟨wkc', _, hanswer', hwkc⟩ := exchange_counts (g := crowded) rfl addsUp_crowded
  cases hanswer.symm.trans hanswer'
  rw [total_crowded] at hwkc
  rw [length_crowded] at hexpected
  have hall := (hreached.1 (UInt16.le_iff_toNat_le.2 (by rw [hwkc, hexpected]; decide))).1
  exact absurd (hall {} List.mem_cons_self) (by decide)

end Segment

end Servo.Simulation
