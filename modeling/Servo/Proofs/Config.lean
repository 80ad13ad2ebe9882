/-
What an accepted configuration promises.

`Config.flaw?` looks for flaws in a fixed order and reports the first one. What
the programs rely on is that there is none: `Config.validate_eq_ok_iff` reads an
accepted configuration as the list of everything that holds of it.
-/
import Servo.Config

namespace Servo.Config

variable {c : Config} {key : String} {mapping : List Pdo.Entry}

/-- A mapping without a flaw has entries, not too many, and none of no bits. -/
theorem mappingFlaw?_eq_none_iff :
    mappingFlaw? key mapping = none
      ↔ mapping ≠ [] ∧ mapping.length ≤ Pdo.maxEntries ∧ ∀ entry ∈ mapping, entry.bits ≠ 0 := by
  unfold mappingFlaw?
  by_cases h : mapping = [] ∨ Pdo.maxEntries < mapping.length
  · rw [if_pos h]
    constructor
    · intro hnone
      cases hnone
    · intro h
      obtain ⟨hne, hle, -⟩ := h
      rcases h with h | h
      · exact absurd h hne
      · exact absurd h (Nat.not_lt.2 hle)
  · rw [if_neg h, Option.map_eq_none_iff, List.find?_eq_none]
    obtain ⟨hne, hle⟩ := not_or.1 h
    constructor
    · intro hbits
      exact ⟨hne, Nat.not_lt.1 hle, fun entry he hz => hbits entry he (beq_iff_eq.2 hz)⟩
    · intro h entry he hz
      obtain ⟨-, -, hbits⟩ := h
      exact hbits entry he (beq_iff_eq.1 hz)

/-- A configuration is accepted when its drive has a number, its mappings have
no flaw, and neither the least image nor any bound is zero. -/
theorem validate_eq_ok_iff :
    c.validate = .ok ()
      ↔ c.slave ≠ 0 ∧ c.minProcessBits ≠ 0
        ∧ mappingFlaw? "mapping.rx" c.mapping.rx = none
        ∧ mappingFlaw? "mapping.tx" c.mapping.tx = none
        ∧ ∀ bound ∈ bounds c.timing, bound.2 ≠ 0 := by
  have hbounds : ((bounds c.timing).find? (·.2 == 0)).map (Flaw.zeroBound ·.1) = none
      ↔ ∀ bound ∈ bounds c.timing, bound.2 ≠ 0 := by
    rw [Option.map_eq_none_iff, List.find?_eq_none]
    exact forall₂_congr fun bound _ => not_congr beq_iff_eq
  have hflaw : c.validate = .ok () ↔ c.flaw? = none := by
    unfold validate
    cases c.flaw? with
    | none => simp
    | some flaw => simp
  rw [hflaw, ← hbounds]
  unfold flaw?
  by_cases hslave : c.slave = 0
  · simp [hslave]
  · by_cases hbits : c.minProcessBits = 0
    · simp [hslave, hbits]
    · rw [if_neg hslave, if_neg hbits, Option.orElse_eq_orElse, Option.orElse_eq_or,
        Option.or_eq_none_iff, Option.orElse_eq_or, Option.or_eq_none_iff]
      constructor
      · intro hnone
        exact ⟨hslave, hbits, hnone⟩
      · intro h
        obtain ⟨-, -, hnone⟩ := h
        exact hnone

/-- An accepted configuration allows an attempt at a change of state, and a look at it. -/
theorem stateControl_ne_zero (h : c.validate = .ok ()) :
    c.timing.stateAttempts ≠ 0 ∧ c.timing.statePolls ≠ 0 := by
  obtain ⟨-, -, -, -, hbounds⟩ := validate_eq_ok_iff.1 h
  have hattempts := hbounds ("timing.state_attempts", c.timing.stateAttempts) (by simp [bounds])
  have hpolls := hbounds ("timing.state_polls", c.timing.statePolls) (by simp [bounds])
  exact ⟨hattempts, hpolls⟩

/-- An accepted configuration allows an attempt at enabling the drive. -/
theorem enableAttempts_ne_zero (h : c.validate = .ok ()) : c.timing.enableAttempts ≠ 0 := by
  obtain ⟨-, -, -, -, hbounds⟩ := validate_eq_ok_iff.1 h
  exact hbounds ("timing.enable_attempts", c.timing.enableAttempts) (by simp [bounds])

end Servo.Config
