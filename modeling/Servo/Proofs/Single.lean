/-
What the operations on floating point numbers round to.

Every number is a multiple of the smallest one, 2 ^ -149, so a number is compared
as how many of these it counts (`Counts`), and no fractions are needed. An operation
finds the exact result, again as a fraction of natural numbers, and rounds it
(`div_of_counts`, `add_of_counts`).

# Rounding

A quotient is rounded to a multiple of its last bit (`counts_ofRatio`). Powers of two
are such multiples, so a number never leaves the two powers that the quotient lies
between (`exists_counts_ofRatio`). That is all that is needed to follow a few roundings
one after the other.

# Signs

A quotient that is not zero can still be rounded to zero, if it is too small, and then
its sign is lost. That does not happen as long as the quotient is at least the smallest
number: the pattern that is found has some bit set beside the sign
(`sign?_ofMagnitude`). It is never one that is not a number either, for the magnitude
stops at the one of infinity.
-/
import Mathlib.Tactic.Ring
import Servo.Single

namespace Servo.Single

variable {x y : Single} {negative s t : Bool} {n d m u v : Nat}

-- ============================================================== patterns

/-- The fields of a pattern, in natural numbers. -/
theorem classify_eq (x : Single) :
    x.classify =
      if x.bits.toNat / 2 ^ 23 % 256 = 255 then
        if x.bits.toNat % 2 ^ 23 = 0 then .infinite (decide (x.bits.toNat / 2 ^ 31 = 1))
        else .notANumber
      else if x.bits.toNat / 2 ^ 23 % 256 = 0 then
        .finite (decide (x.bits.toNat / 2 ^ 31 = 1)) (x.bits.toNat % 2 ^ 23) (-149)
      else .finite (decide (x.bits.toNat / 2 ^ 31 = 1)) (x.bits.toNat % 2 ^ 23 + 2 ^ 23)
        ((x.bits.toNat / 2 ^ 23 % 256 : Nat) - 150) := by
  have hsign : (x.bits >>> 31).toNat = x.bits.toNat / 2 ^ 31 := by
    rw [UInt32.toNat_shiftRight, Nat.shiftRight_eq_div_pow]
    rfl
  have hexponent : ((x.bits >>> 23) &&& 0xff).toNat = x.bits.toNat / 2 ^ 23 % 256 := by
    rw [UInt32.toNat_and, UInt32.toNat_shiftRight, Nat.shiftRight_eq_div_pow]
    exact Nat.and_two_pow_sub_one_eq_mod _ 8
  have hmantissa : (x.bits &&& 0x7fffff).toNat = x.bits.toNat % 2 ^ 23 := by
    rw [UInt32.toNat_and]
    exact Nat.and_two_pow_sub_one_eq_mod _ 23
  unfold classify
  simp only [← UInt32.toNat_inj, hsign, hexponent, hmantissa]
  rfl

/-- The sign is the highest bit, and no magnitude reaches it. -/
theorem toNat_ofMagnitude (hm : m ≤ 0xff <<< 23) :
    (ofMagnitude negative m).bits.toNat = m + if negative then 2 ^ 31 else 0 := by
  have hlt : m < 2 ^ 31 := Nat.lt_of_le_of_lt hm (by decide)
  have hbits : (UInt32.ofNat (min m (0xff <<< 23))).toNat = m := by
    rw [Nat.min_eq_left hm]
    exact UInt32.toNat_ofNat_of_lt' (Nat.lt_trans hlt (by decide))
  unfold ofMagnitude
  rw [UInt32.toNat_or, hbits]
  cases negative with
  | false => exact Nat.or_zero m
  | true =>
    rw [Nat.or_comm, Nat.add_comm]
    exact (Nat.two_pow_add_eq_or_of_lt hlt 1).symm

/-- A magnitude that is not zero keeps its sign, however large it is. -/
theorem sign?_ofMagnitude (hpos : 0 < m) :
    (ofMagnitude negative m).sign? = some (if negative then -1 else 1) := by
  have hstop : ofMagnitude negative m = ofMagnitude negative (min m (0xff <<< 23)) := by
    unfold ofMagnitude
    rw [Nat.min_assoc, Nat.min_self]
  obtain ⟨k, hk, hkpos, hkle⟩ : ∃ k, min m (0xff <<< 23) = k ∧ 0 < k ∧ k ≤ 255 * 2 ^ 23 :=
    ⟨_, rfl, Nat.lt_min.2 ⟨hpos, by decide⟩, Nat.min_le_right _ _⟩
  have hbits := @toNat_ofMagnitude negative k hkle
  have hsign : decide ((ofMagnitude negative k).bits.toNat / 2 ^ 31 = 1) = negative := by
    rw [hbits]
    cases negative with
    | false =>
      rw [if_neg Bool.false_ne_true]
      exact decide_eq_false (by omega)
    | true =>
      rw [if_pos rfl]
      exact decide_eq_true (by omega)
  have hexponent : (ofMagnitude negative k).bits.toNat / 2 ^ 23 % 256 = k / 2 ^ 23 := by
    rw [hbits]
    split <;> omega
  have hmantissa : (ofMagnitude negative k).bits.toNat % 2 ^ 23 = k % 2 ^ 23 := by
    rw [hbits]
    split <;> omega
  rw [hstop, hk]
  unfold sign?
  rw [classify_eq, hsign, hexponent, hmantissa]
  by_cases hinfinite : k / 2 ^ 23 = 255
  · rw [if_pos hinfinite, if_pos (show k % 2 ^ 23 = 0 by omega)]
  rw [if_neg hinfinite]
  by_cases hsmall : k / 2 ^ 23 = 0
  · rw [if_pos hsmall]
    exact congrArg some (if_neg (show k % 2 ^ 23 ≠ 0 by omega))
  · rw [if_neg hsmall]
    exact congrArg some (if_neg (show k % 2 ^ 23 + 2 ^ 23 ≠ 0 by omega))

-- ============================================================== counting

/-- The pattern is a number, and so many times 2 ^ -149. -/
def Counts (x : Single) (negative : Bool) (steps : Nat) : Prop :=
  ∃ m e, x.classify = .finite negative m e ∧ -149 ≤ e ∧ m * 2 ^ (e + 149).toNat = steps

/-- A number that counts no step is zero, and any other has its sign. -/
theorem Counts.sign? (h : Counts x negative u) :
    x.sign? = some (if u = 0 then 0 else if negative then -1 else 1) := by
  obtain ⟨m, e, hclass, -, rfl⟩ := h
  unfold Single.sign?
  rw [hclass]
  have hzero : m * 2 ^ (e + 149).toNat = 0 ↔ m = 0 := by
    rw [Nat.mul_eq_zero]
    exact or_iff_left (Nat.two_pow_pos _).ne'
  simp only [hzero]

theorem sign?_zero : zero.sign? = some 0 := by decide

/-- A pattern is read back as its last bit and what is counted in it. Twenty-four bits
are one more than fit, and carry into the next exponent. -/
theorem counts_ofMagnitude {k : Nat} (hm : m ≤ 2 ^ 24) (hk : k = 0 ∨ 2 ^ 23 ≤ m)
    (hfinite : k ≤ 252) : Counts (ofMagnitude negative (k <<< 23 + m)) negative (m * 2 ^ k) := by
  rw [Nat.shiftLeft_eq]
  obtain ⟨total, htotal⟩ : ∃ total, total = k * 2 ^ 23 + m := ⟨_, rfl⟩
  have hbits := @toNat_ofMagnitude negative total (by omega)
  have hsign : decide ((ofMagnitude negative total).bits.toNat / 2 ^ 31 = 1) = negative := by
    rw [hbits]
    cases negative with
    | false => simp only [Bool.false_eq_true, if_false, decide_eq_false_iff_not]; omega
    | true => simp only [if_true, decide_eq_true_iff]; omega
  have hexponent : (ofMagnitude negative total).bits.toNat / 2 ^ 23 % 256 = total / 2 ^ 23 := by
    rw [hbits]
    split <;> omega
  have hmantissa : (ofMagnitude negative total).bits.toNat % 2 ^ 23 = total % 2 ^ 23 := by
    rw [hbits]
    split <;> omega
  have hclass := classify_eq (ofMagnitude negative total)
  rw [hsign, hexponent, hmantissa, if_neg (by omega)] at hclass
  rw [← htotal]
  by_cases hsmall : total / 2 ^ 23 = 0
  · rw [if_pos hsmall] at hclass
    obtain rfl : k = 0 := by omega
    exact ⟨_, _, hclass, by decide, by simp; omega⟩
  rw [if_neg hsmall] at hclass
  refine ⟨_, _, hclass, by omega, ?_⟩
  have hshift : ((total / 2 ^ 23 : Nat) - 150 + 149 : Int).toNat = total / 2 ^ 23 - 1 := by omega
  rw [hshift]
  by_cases hcarry : m = 2 ^ 24
  · have hquotient : total / 2 ^ 23 - 1 = k + 1 := by omega
    have hremainder : total % 2 ^ 23 = 0 := by omega
    rw [hquotient, hremainder, hcarry]
    ring
  · have hquotient : total / 2 ^ 23 - 1 = k := by omega
    have hremainder : total % 2 ^ 23 + 2 ^ 23 = m := by omega
    rw [hquotient, hremainder]

-- =============================================================== scaling

/-- Scaling a fraction multiplies it by a power of two, which may stand on either side. -/
theorem exists_scale {p q : Nat} {k : Int} (hk : (p : Int) - q = k) :
    ∃ f, 0 < f ∧ n * 2 ^ p = (scale n d k).1 * f ∧ d * 2 ^ q = (scale n d k).2 * f := by
  unfold scale
  by_cases hup : 0 ≤ k
  · rw [if_pos hup]
    have hp : p = k.toNat + q := by omega
    refine ⟨2 ^ q, Nat.two_pow_pos q, ?_, rfl⟩
    rw [Nat.shiftLeft_eq, hp, Nat.pow_add, Nat.mul_assoc]
  · rw [if_neg hup]
    have hq : q = (-k).toNat + p := by omega
    refine ⟨2 ^ p, Nat.two_pow_pos p, rfl, ?_⟩
    rw [Nat.shiftLeft_eq, hq, Nat.pow_add, Nat.mul_assoc]

theorem scale_pos {k : Int} (hd : 0 < d) : 0 < (scale n d k).2 := by
  unfold scale
  split
  next => exact hd
  next => exact Nat.shiftLeft_pos_iff.2 hd

/-- Scaled fractions are compared as the fractions are. -/
theorem scale_le_iff {p q : Nat} {k : Int} (hk : (p : Int) - q = k) (a b : Nat) :
    (scale n d k).2 * a ≤ (scale n d k).1 * b ↔ d * 2 ^ q * a ≤ n * 2 ^ p * b := by
  obtain ⟨f, hf, hn, hd⟩ := exists_scale (n := n) (d := d) hk
  rw [hn, hd, Nat.mul_right_comm _ f a, Nat.mul_right_comm _ f b]
  exact (Nat.mul_le_mul_right_iff hf).symm

/-- A scaled fraction compares as one whose sides are multiplied by two powers of two, whatever
the two are, if their quotient is the scale. -/
theorem le_scale_iff {p q : Nat} {k : Int} (hk : (p : Int) - q = k) (a b : Nat) :
    (scale n d k).1 * a ≤ (scale n d k).2 * b ↔ n * 2 ^ p * a ≤ d * 2 ^ q * b := by
  obtain ⟨f, hf, hn, hd⟩ := exists_scale (n := n) (d := d) hk
  rw [hn, hd, Nat.mul_right_comm _ f a, Nat.mul_right_comm _ f b]
  exact (Nat.mul_le_mul_right_iff hf).symm

-- ============================================================== rounding

/-- Rounding keeps every lower bound that is a whole number. -/
theorem le_nearestEven (hd : 0 < d) (h : d * m ≤ n) : m ≤ nearestEven n d := by
  have hquotient : m ≤ n / d := (Nat.le_div_iff_mul_le hd).2 (by rwa [Nat.mul_comm])
  unfold nearestEven
  dsimp only
  split
  next => exact hquotient
  next =>
    split
    next => exact Nat.le_succ_of_le hquotient
    next => exact Nat.le_add_right_of_le hquotient

/-- Rounding keeps every upper bound that is a whole number. -/
theorem nearestEven_le (hd : 0 < d) (h : n ≤ d * m) : nearestEven n d ≤ m := by
  have hdivided : d * (n / d) + n % d = n := Nat.div_add_mod n d
  rcases Nat.lt_or_ge (n / d) m with hlt | hge
  · unfold nearestEven
    dsimp only
    split
    next => exact Nat.le_of_lt hlt
    next =>
      split
      next => exact hlt
      next => have := Nat.mod_lt (n / d) (by decide : 0 < 2); omega
  · -- the quotient is `m` exactly, and nothing is left to round
    have hle : d * m ≤ d * (n / d) := Nat.mul_le_mul_left d hge
    have hexact : n % d = 0 := by omega
    have hquotient : n / d ≤ m := Nat.le_of_mul_le_mul_left (by omega) hd
    unfold nearestEven
    simp only [hexact, Nat.mul_zero, if_pos hd]
    exact hquotient

/-- The leading bit of a quotient is found by those of its parts, up to one. -/
theorem exists_leading (hn : 0 < n) (hd : 0 < d) : ∃ p q : Nat,
    lastBit n d = max (-149) ((q : Int) - p - 23)
      ∧ d * 2 ^ q ≤ n * 2 ^ p ∧ n * 2 ^ p < d * 2 ^ q * 2 := by
  have hnlow : 2 ^ n.log2 ≤ n := Nat.log2_self_le (Nat.ne_of_gt hn)
  have hnhigh : n < 2 ^ (n.log2 + 1) := Nat.lt_log2_self
  have hdlow : 2 ^ d.log2 ≤ d := Nat.log2_self_le (Nat.ne_of_gt hd)
  have hdhigh : d < 2 ^ (d.log2 + 1) := Nat.lt_log2_self
  have hiff := scale_le_iff (n := n) (d := d) (p := d.log2) (q := n.log2)
    (k := -((n.log2 : Int) - d.log2)) (by omega) 1 1
  simp only [Nat.mul_one] at hiff
  unfold lastBit
  dsimp only
  by_cases hle : d * 2 ^ n.log2 ≤ n * 2 ^ d.log2
  · refine ⟨d.log2, n.log2, ?_, hle, ?_⟩
    · rw [if_pos (hiff.2 hle)]
    · calc
        n * 2 ^ d.log2 < 2 ^ (n.log2 + 1) * 2 ^ d.log2 :=
          Nat.mul_lt_mul_of_pos_right hnhigh (Nat.two_pow_pos _)
        _ = 2 ^ d.log2 * 2 ^ n.log2 * 2 := by ring
        _ ≤ d * 2 ^ n.log2 * 2 := Nat.mul_le_mul_right _ (Nat.mul_le_mul_right _ hdlow)
  · refine ⟨d.log2 + 1, n.log2, ?_, ?_, ?_⟩
    · rw [if_neg (mt hiff.1 hle)]
      congr 1
      omega
    · calc
        d * 2 ^ n.log2 ≤ 2 ^ (d.log2 + 1) * 2 ^ n.log2 :=
          Nat.mul_le_mul_right _ (Nat.le_of_lt hdhigh)
        _ = 2 ^ n.log2 * 2 ^ (d.log2 + 1) := Nat.mul_comm _ _
        _ ≤ n * 2 ^ (d.log2 + 1) := Nat.mul_le_mul_right _ hnlow
    · rw [Nat.pow_succ, ← Nat.mul_assoc]
      omega

/-- In units of its last bit a quotient takes twenty-four bits, or fewer where the last
bit is the lowest there is. -/
theorem lastBit_spec (hn : 0 < n) (hd : 0 < d) :
    (scale n d (-lastBit n d)).1 ≤ (scale n d (-lastBit n d)).2 * 2 ^ 24
      ∧ (lastBit n d = -149
        ∨ (scale n d (-lastBit n d)).2 * 2 ^ 23 ≤ (scale n d (-lastBit n d)).1) := by
  obtain ⟨p, q, hlast, hlow, hhigh⟩ := exists_leading hn hd
  -- the last bit is higher than the one that 24 bits reach, if that is below the lowest
  obtain ⟨raised, hraised⟩ : ∃ raised : Nat, lastBit n d = (q + raised : Nat) - (p + 23 : Nat) :=
    ⟨(lastBit n d - (q - p - 23)).toNat, by omega⟩
  have hk : ((p + 23 : Nat) : Int) - (q + raised : Nat) = -lastBit n d := by omega
  have hshifted : n * 2 ^ (p + 23) = n * 2 ^ p * 2 ^ 23 := by ring
  constructor
  · have hle := (le_scale_iff (n := n) (d := d) hk 1 (2 ^ 24)).2
    rw [Nat.mul_one, Nat.mul_one, hshifted] at hle
    refine hle ?_
    calc
      n * 2 ^ p * 2 ^ 23 ≤ d * 2 ^ q * 2 * 2 ^ 23 := Nat.mul_le_mul_right _ (Nat.le_of_lt hhigh)
      _ = d * 2 ^ q * 2 ^ 24 := by ring
      _ ≤ d * 2 ^ (q + raised) * 2 ^ 24 :=
        Nat.mul_le_mul_right _ (Nat.mul_le_mul_left _ (Nat.pow_le_pow_right (by decide)
          (Nat.le_add_right q raised)))
  · by_cases hlowest : lastBit n d = -149
    · exact .inl hlowest
    · right
      obtain rfl : raised = 0 := by omega
      have hle := (scale_le_iff (n := n) (d := d) hk (2 ^ 23) 1).2
      rw [Nat.mul_one, Nat.mul_one, hshifted] at hle
      exact hle (Nat.mul_le_mul_right _ hlow)

/-- A quotient is rounded to the nearest multiple of its last bit. -/
theorem counts_ofRatio (hn : 0 < n) (hd : 0 < d) (hfinite : n < d * 2 ^ 100) :
    Counts (ofRatio negative n d) negative
      (nearestEven (scale n d (-lastBit n d)).1 (scale n d (-lastBit n d)).2
        * 2 ^ (lastBit n d + 149).toNat) := by
  obtain ⟨hfew, hmany⟩ := lastBit_spec hn hd
  have hlowest : -149 ≤ lastBit n d := Int.le_max_left _ _
  have hdown : 0 < (scale n d (-lastBit n d)).2 := scale_pos hd
  unfold ofRatio
  rw [if_neg (Nat.ne_of_gt hn)]
  refine counts_ofMagnitude (nearestEven_le hdown hfew) ?_ ?_
  · refine hmany.imp (fun hlast => by rw [hlast]; rfl) fun hhigh => le_nearestEven hdown hhigh
  · rcases hmany with hlast | hhigh
    · rw [hlast]
      decide
    · have hsteps : ((149 : Nat) : Int) - (lastBit n d + 149).toNat = -lastBit n d := by omega
      have hle := (scale_le_iff (n := n) (d := d) hsteps (2 ^ 23) 1).1 (by rwa [Nat.mul_one])
      have hlt : d * 2 ^ ((lastBit n d + 149).toNat + 23) < d * 2 ^ (100 + 149) := by
        calc
          d * 2 ^ ((lastBit n d + 149).toNat + 23)
              = d * 2 ^ (lastBit n d + 149).toNat * 2 ^ 23 := by ring
          _ ≤ n * 2 ^ 149 * 1 := hle
          _ < d * 2 ^ 100 * 2 ^ 149 := by
            rw [Nat.mul_one]
            exact Nat.mul_lt_mul_of_pos_right hfinite (Nat.two_pow_pos _)
          _ = d * 2 ^ (100 + 149) := by rw [Nat.mul_assoc, ← Nat.pow_add]
      have := (Nat.pow_lt_pow_iff_right (by decide)).1 (Nat.lt_of_mul_lt_mul_left hlt)
      omega

/-- A quotient of `2 ^ -j` or more is not rounded to less. -/
theorem le_rounded {j k : Nat} {e : Int} (hk : ((149 : Nat) : Int) - k = e) (hd : 0 < d)
    (hmany : k = 0 ∨ (scale n d e).2 * 2 ^ 23 ≤ (scale n d e).1) (hj : j ≤ 149)
    (hle : d ≤ n * 2 ^ j) :
    2 ^ (149 - j) ≤ nearestEven (scale n d e).1 (scale n d e).2 * 2 ^ k := by
  rcases Nat.lt_or_ge (149 - j) k with hhigh | hlow
  · have hbits : 2 ^ 23 ≤ nearestEven (scale n d e).1 (scale n d e).2 :=
      le_nearestEven (scale_pos hd) (hmany.resolve_left (by omega))
    calc
      2 ^ (149 - j) ≤ 2 ^ k := Nat.pow_le_pow_right (by decide) (Nat.le_of_lt hhigh)
      _ = 1 * 2 ^ k := (Nat.one_mul _).symm
      _ ≤ nearestEven (scale n d e).1 (scale n d e).2 * 2 ^ k :=
        Nat.mul_le_mul_right _ (Nat.le_trans (by decide) hbits)
  · rw [← Nat.sub_add_cancel hlow, Nat.pow_add]
    refine Nat.mul_le_mul_right _ (le_nearestEven (scale_pos hd) ?_)
    rw [← Nat.mul_one (scale n d _).1]
    refine (scale_le_iff hk _ 1).2 ?_
    calc
      d * 2 ^ k * 2 ^ (149 - j - k) = d * 2 ^ (149 - j) := by
        rw [Nat.mul_assoc, ← Nat.pow_add, Nat.add_sub_cancel' hlow]
      _ ≤ n * 2 ^ j * 2 ^ (149 - j) := Nat.mul_le_mul_right _ hle
      _ = n * 2 ^ 149 * 1 := by rw [Nat.mul_assoc, ← Nat.pow_add, Nat.add_sub_cancel' hj,
          Nat.mul_one]

/-- A quotient of `2 ^ j` or less is not rounded to more. -/
theorem rounded_le {j k : Nat} {e : Int} (hk : ((149 : Nat) : Int) - k = e) (hd : 0 < d)
    (hmany : k = 0 ∨ (scale n d e).2 * 2 ^ 23 ≤ (scale n d e).1) (hle : n ≤ d * 2 ^ j) :
    nearestEven (scale n d e).1 (scale n d e).2 * 2 ^ k ≤ 2 ^ (149 + j) := by
  have hsteps : n * 2 ^ 149 * 1 ≤ d * 2 ^ (149 + j) :=
    calc
      n * 2 ^ 149 * 1 ≤ d * 2 ^ j * 2 ^ 149 := by
        rw [Nat.mul_one]
        exact Nat.mul_le_mul_right _ hle
      _ = d * 2 ^ (149 + j) := by rw [Nat.mul_assoc, ← Nat.pow_add, Nat.add_comm]
  -- the quotient takes 24 bits, so its last bit is not past its bound
  have hlast : k ≤ 149 + j := by
    rcases hmany with rfl | hbits
    · exact Nat.zero_le _
    · have hle := ((scale_le_iff hk (2 ^ 23) 1).1 (by rwa [Nat.mul_one])).trans hsteps
      rw [Nat.mul_assoc, ← Nat.pow_add] at hle
      have := (Nat.pow_le_pow_iff_right (by decide)).1 (Nat.le_of_mul_le_mul_left hle hd)
      omega
  rw [← Nat.sub_add_cancel hlast, Nat.pow_add]
  refine Nat.mul_le_mul_right _ (nearestEven_le (scale_pos hd) ?_)
  rw [← Nat.mul_one (scale n d _).1]
  refine (le_scale_iff hk 1 _).2 ?_
  rwa [Nat.mul_assoc d, ← Nat.pow_add, Nat.add_sub_cancel' hlast]

theorem counts_ofRatio_zero : Counts (ofRatio negative 0 d) negative 0 :=
  counts_ofMagnitude (m := 0) (k := 0) (Nat.zero_le _) (.inl rfl) (Nat.zero_le _)

/-- The bounds that rounding keeps. -/
structure Rounded (n d steps : Nat) : Prop where
  zero : n = 0 → steps = 0
  low : ∀ j ≤ 149, d ≤ n * 2 ^ j → 2 ^ (149 - j) ≤ steps
  high : ∀ j, n ≤ d * 2 ^ j → steps ≤ 2 ^ (149 + j)

/-- Rounding does not go past a power of two. -/
theorem exists_counts_ofRatio (hd : 0 < d) (hfinite : n < d * 2 ^ 100) :
    ∃ u, Counts (ofRatio negative n d) negative u ∧ Rounded n d u := by
  rcases Nat.eq_zero_or_pos n with rfl | hn
  · refine ⟨0, counts_ofRatio_zero, fun _ => rfl, fun j _ hle => ?_, fun j _ => Nat.zero_le _⟩
    rw [Nat.zero_mul] at hle
    omega
  · obtain ⟨-, hmany⟩ := lastBit_spec hn hd
    have hlowest : -149 ≤ lastBit n d := Int.le_max_left _ _
    have hk : ((149 : Nat) : Int) - (lastBit n d + 149).toNat = -lastBit n d := by omega
    have hmany := hmany.imp_left fun hlast => show (lastBit n d + 149).toNat = 0 by omega
    exact ⟨_, counts_ofRatio hn hd hfinite, fun hzero => absurd hzero (Nat.ne_of_gt hn),
      fun _ hj hle => le_rounded hk hd hmany hj hle, fun _ hle => rounded_le hk hd hmany hle⟩

/-- A quotient that is not too small keeps its sign, however large it is. -/
theorem sign?_ofRatio (hd : 0 < d) (hn : 0 < n) (h : d ≤ n * 2 ^ 149) :
    (ofRatio negative n d).sign? = some (if negative then -1 else 1) := by
  have hlast : -149 ≤ lastBit n d := Int.le_max_left _ _
  unfold ofRatio
  rw [if_neg (Nat.ne_of_gt hn)]
  dsimp only
  apply sign?_ofMagnitude
  rcases Int.le_iff_eq_or_lt.1 hlast with heq | hlt
  · -- the last bit is the smallest number there is, and the quotient holds it
    have hone := le_rounded (n := n) (d := d) (j := 149) (k := 0) rfl hd (.inl rfl) (by decide) h
    rw [← heq]
    rw [Nat.pow_zero, Nat.mul_one] at hone
    exact Nat.add_pos_right _ hone
  · have hshift : 0 < (lastBit n d + 149).toNat <<< 23 := by
      rw [Nat.shiftLeft_eq]
      exact Nat.mul_pos (by omega) (by decide)
    exact Nat.add_pos_left hshift _

-- ============================================================ operations

/-- An integer is rounded to a finite number of its own sign. -/
theorem exists_counts_ofInt (i : Int) (h : i.natAbs < 2 ^ 100) :
    ∃ u, Counts (ofInt i) (decide (i < 0)) u ∧ Rounded i.natAbs 1 u :=
  exists_counts_ofRatio Nat.one_pos (by rwa [Nat.one_mul])

/-- A quotient of numbers is the rounded one of what they count. -/
theorem div_of_counts (hx : Counts x s u) (hy : Counts y t v) (hv : 0 < v) :
    ∃ n d f, 0 < f ∧ u = n * f ∧ v = d * f ∧ x.div y = ofRatio (s != t) n d := by
  obtain ⟨m, e, hx, he, rfl⟩ := hx
  obtain ⟨m', e', hy, he', rfl⟩ := hy
  obtain ⟨f, hf, hn, hd⟩ := exists_scale (n := m) (d := m') (p := (e + 149).toNat)
    (q := (e' + 149).toNat) (k := e - e') (by omega)
  have hm' : m' ≠ 0 := fun hzero => by simp [hzero] at hv
  refine ⟨_, _, f, hf, hn, hd, ?_⟩
  unfold div
  rw [hx, hy]
  dsimp only
  rw [if_neg hm']

/-- A sum of numbers that are not negative is the rounded one of what they count. -/
theorem add_of_counts (hx : Counts x false u) (hy : Counts y false v) :
    ∃ n d f, 0 < f ∧ u + v = n * f ∧ 2 ^ 149 = d * f ∧ x.add y = ofRatio false n d := by
  obtain ⟨m, e, hx, he, rfl⟩ := hx
  obtain ⟨m', e', hy, he', rfl⟩ := hy
  obtain ⟨low, hlow⟩ : ∃ low, low = min e e' := ⟨_, rfl⟩
  obtain ⟨sum, hsum⟩ : ∃ sum, sum = m * 2 ^ (e - low).toNat + m' * 2 ^ (e' - low).toNat := ⟨_, rfl⟩
  obtain ⟨f, hf, hn, hd⟩ := exists_scale (n := sum) (d := 1) (p := (low + 149).toNat)
    (q := 149) (k := low) (by omega)
  refine ⟨(scale sum 1 low).1, (scale sum 1 low).2, f, hf, ?_, (Nat.one_mul _).symm.trans hd, ?_⟩
  · rw [← hn, hsum, Nat.add_mul, Nat.mul_assoc, Nat.mul_assoc, ← Nat.pow_add, ← Nat.pow_add]
    congr 3 <;> omega
  · have haligned : aligned low false m e + aligned low false m' e' = (sum : Int) := by
      rw [hsum]
      simp [aligned, Nat.shiftLeft_eq]
    unfold add
    rw [hx, hy]
    dsimp only
    rw [← hlow, haligned, Int.natAbs_natCast]
    have hsign : (if (sum : Int) = 0 then false && false else decide ((sum : Int) < 0)) = false := by
      split
      next => rfl
      next => exact decide_eq_false (by omega)
    rw [hsign]

/-- Dividing an integer by a positive number, which is not too large, keeps its sign. -/
theorem sign?_div {i : Int} (hi : i.natAbs < 2 ^ 100) (hy : Counts y false v) (hv : 0 < v)
    (hbound : v ≤ 2 ^ 240) : ((ofInt i).div y).sign? = some i.sign := by
  obtain ⟨u, hx, hrounded⟩ := exists_counts_ofInt i hi
  obtain ⟨n, d, f, hf, rfl, rfl, hdiv⟩ := div_of_counts hx hy hv
  rw [hdiv]
  by_cases hne : i = 0
  · subst hne
    obtain rfl : n = 0 := (Nat.mul_eq_zero.1 (hrounded.zero rfl)).resolve_right (Nat.ne_of_gt hf)
    exact counts_ofRatio_zero.sign?
  · have hlow : 2 ^ 149 ≤ n * f := hrounded.low 0 (by decide) (by omega)
    have hn : 0 < n := Nat.pos_of_mul_pos_right (Nat.lt_of_lt_of_le (by decide) hlow)
    have hd : 0 < d := Nat.pos_of_mul_pos_right hv
    have hle : d * f ≤ n * 2 ^ 149 * f :=
      calc
        d * f ≤ 2 ^ 240 := hbound
        _ ≤ 2 ^ 149 * 2 ^ 149 := by decide
        _ ≤ n * f * 2 ^ 149 := Nat.mul_le_mul_right _ hlow
        _ = n * 2 ^ 149 * f := Nat.mul_right_comm _ _ _
    rw [sign?_ofRatio hd hn (Nat.le_of_mul_le_mul_right hle hf)]
    rcases Int.lt_or_gt_of_ne hne with hneg | hpos
    · simp [hneg, Int.sign_eq_neg_one_of_neg hneg]
    · simp [Int.not_lt.2 (Int.le_of_lt hpos), Int.sign_eq_one_of_pos hpos]

end Servo.Single
