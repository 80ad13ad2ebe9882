/-
The number of seconds in a span of time.

Four roundings make that number out of a span: of the whole seconds, of the
nanoseconds, of the part of a second that these are, and of the sum. None of them
can turn a part that is not zero into zero, and none makes it leave the bounds that
64 bits of seconds have (`exists_counts_asSeconds`). So a span of some length has a
positive number of seconds, and a distance divided by that number keeps its sign.
-/
import Servo.Proofs.Single
import Servo.Duration

namespace Servo.Duration

open Single

variable {d : Duration} {n : Nat}

-- =============================================================== clocks

theorem totalNanoseconds_ofNanoseconds (h : n < UInt64.size * 1000000000) :
    (ofNanoseconds n).totalNanoseconds = n := by
  have hseconds : (UInt64.ofNat (n / 1000000000)).toNat = n / 1000000000 :=
    UInt64.toNat_ofNat_of_lt' (Nat.div_lt_of_lt_mul (by rwa [Nat.mul_comm]))
  have hnanoseconds : (UInt32.ofNat (n % 1000000000)).toNat = n % 1000000000 :=
    UInt32.toNat_ofNat_of_lt' (Nat.lt_trans (Nat.mod_lt n (by decide)) (by decide))
  show 1000000000 * (UInt64.ofNat (n / 1000000000)).toNat
    + (UInt32.ofNat (n % 1000000000)).toNat = n
  rw [hseconds, hnanoseconds]
  exact Nat.div_add_mod n 1000000000

theorem totalNanoseconds_lt (d : Duration) : d.totalNanoseconds < UInt64.size * 1000000000 := by
  have hseconds := d.seconds.toNat_lt_size
  have hnanoseconds := d.nanoseconds_lt
  unfold totalNanoseconds
  omega

/-- The time between two others is their difference, as far as that is one. -/
theorem totalNanoseconds_since (now before : Duration) :
    (now.since before).totalNanoseconds = now.totalNanoseconds - before.totalNanoseconds :=
  totalNanoseconds_ofNanoseconds (Nat.lt_of_le_of_lt (Nat.sub_le _ _) now.totalNanoseconds_lt)

-- ============================================================== seconds

theorem counts_billion : Counts .billion false (1000000000 * 2 ^ 149) :=
  ⟨15625000, 6, by decide, by decide, by decide⟩

/-- The part of a second that some nanoseconds are. -/
theorem exists_counts_fraction (n : UInt32) : ∃ u,
    Counts ((ofInt n.toNat).div .billion) false u
      ∧ (n.toNat = 0 → u = 0) ∧ (n.toNat ≠ 0 → 2 ^ 119 ≤ u) ∧ u ≤ 2 ^ 152 := by
  have hn := n.toNat_lt
  obtain ⟨u, hu, hrounded⟩ := exists_counts_ofInt n.toNat (by omega)
  rw [Int.natAbs_natCast] at hrounded
  have hhigh := hrounded.high 32 (by omega)
  rw [show decide ((n.toNat : Int) < 0) = false from decide_eq_false (by omega)] at hu
  obtain ⟨p, q, f, hf, rfl, hq, hdiv⟩ := div_of_counts hu counts_billion (by decide)
  have hqpos : 0 < q := Nat.pos_of_mul_pos_right (Nat.lt_of_lt_of_eq (by decide) hq)
  have hfew : p ≤ q * 2 ^ 3 := by
    refine Nat.le_of_mul_le_mul_right ?_ hf
    rw [Nat.mul_right_comm, ← hq]
    exact Nat.le_trans hhigh (by decide)
  have hpow : q * 2 ^ 3 < q * 2 ^ 100 := Nat.mul_lt_mul_of_pos_left (by decide) hqpos
  obtain ⟨w, hw, hquotient⟩ := exists_counts_ofRatio hqpos (Nat.lt_of_le_of_lt hfew hpow)
  rw [hdiv]
  refine ⟨w, hw, fun hzero => hquotient.zero ?_, fun hne => ?_, hquotient.high 3 hfew⟩
  · exact (Nat.mul_eq_zero.1 (hrounded.zero hzero)).resolve_right (Nat.ne_of_gt hf)
  · have hlow := hrounded.low 0 (by decide) (by omega)
    refine hquotient.low 30 (by decide) (Nat.le_of_mul_le_mul_right ?_ hf)
    rw [Nat.mul_right_comm, ← hq]
    exact Nat.le_trans (by decide) (Nat.mul_le_mul_right _ hlow)

/-- The number of seconds of a span is zero for the empty one only, and has a bound. -/
theorem exists_counts_asSeconds (d : Duration) : ∃ u, Counts d.asSeconds false u
    ∧ (u = 0 ↔ d.totalNanoseconds = 0) ∧ u ≤ 2 ^ 240 := by
  have hseconds := d.seconds.toNat_lt
  obtain ⟨u, hu, hwhole⟩ := exists_counts_ofInt d.seconds.toNat (by omega)
  rw [Int.natAbs_natCast] at hwhole
  rw [show decide ((d.seconds.toNat : Int) < 0) = false from decide_eq_false (by omega)] at hu
  obtain ⟨v, hv, hnone, hsome, hbound⟩ := exists_counts_fraction d.nanoseconds
  have hhigh := hwhole.high 64 (by omega)
  obtain ⟨p, q, f, hf, hp, hq, hadd⟩ := add_of_counts hu hv
  have hqpos : 0 < q := Nat.pos_of_mul_pos_right (Nat.lt_of_lt_of_eq (by decide) hq)
  have hfew : p ≤ q * 2 ^ 65 := by
    refine Nat.le_of_mul_le_mul_right ?_ hf
    rw [Nat.mul_right_comm, ← hp, ← hq]
    exact Nat.le_trans (Nat.add_le_add hhigh hbound) (by decide)
  have hpow : q * 2 ^ 65 < q * 2 ^ 100 := Nat.mul_lt_mul_of_pos_left (by decide) hqpos
  obtain ⟨w, hw, hsum⟩ := exists_counts_ofRatio hqpos (Nat.lt_of_le_of_lt hfew hpow)
  unfold asSeconds
  rw [hadd]
  refine ⟨w, hw, ⟨fun hzero => ?_, fun hempty => hsum.zero ?_⟩,
    Nat.le_trans (hsum.high 65 hfew) (by decide)⟩
  · -- a part that is not empty is some 2 ^ -30 of a second, and stays so
    by_contra hne
    have hparts : 2 ^ 119 ≤ u + v := by
      by_cases hsecond : d.seconds.toNat = 0
      · have hpart : d.nanoseconds.toNat ≠ 0 := by
          unfold totalNanoseconds at hne
          omega
        exact Nat.le_add_left_of_le (hsome hpart)
      · exact Nat.le_add_right_of_le
          (Nat.le_trans (by decide) (hwhole.low 0 (by decide) (by omega)))
    have hkept : 2 ^ (149 - 30) ≤ w := by
      refine hsum.low 30 (by decide) (Nat.le_of_mul_le_mul_right ?_ hf)
      rw [Nat.mul_right_comm, ← hp, ← hq]
      exact Nat.le_trans (by decide) (Nat.mul_le_mul_right _ hparts)
    rw [hzero] at hkept
    exact absurd hkept (by decide)
  · unfold totalNanoseconds at hempty
    have hboth : u + v = 0 := by rw [hwhole.zero (by omega), hnone (by omega)]
    rw [hp] at hboth
    exact (Nat.mul_eq_zero.1 hboth).resolve_right (Nat.ne_of_gt hf)

/-- A span is told to be one by its number of seconds. -/
theorem sign?_asSeconds (d : Duration) :
    d.asSeconds.sign? = some 1 ↔ 0 < d.totalNanoseconds := by
  obtain ⟨u, hu, hzero, -⟩ := d.exists_counts_asSeconds
  rw [hu.sign?, Nat.pos_iff_ne_zero, Ne, ← hzero]
  by_cases h : u = 0 <;> simp [h]

/-- The average speed over a span has the sign of the way. -/
theorem sign?_div_asSeconds {i : Int} (hi : i.natAbs < 2 ^ 100) (hd : 0 < d.totalNanoseconds) :
    ((ofInt i).div d.asSeconds).sign? = some i.sign := by
  obtain ⟨u, hu, hzero, hbound⟩ := d.exists_counts_asSeconds
  exact sign?_div hi hu (by omega) hbound

end Servo.Duration
