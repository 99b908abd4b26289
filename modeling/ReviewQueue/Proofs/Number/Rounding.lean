import Mathlib.Algebra.Order.Field.Basic
import Mathlib.Data.Nat.Log
import Mathlib.Data.Rat.Floor
import Mathlib.Tactic.FieldSimp
import Mathlib.Tactic.Linarith
import Mathlib.Tactic.Positivity
import Mathlib.Tactic.Ring
import ReviewQueue.Number.Double

/-!
# How floating-point numbers are rounded

A fraction is rounded to a multiple of a power of two, its unit, of which it has less than 2^53. So the result is off by half a
unit at most, a number of 53 bits is not changed at all, and the result depends on the value of the fraction alone.
-/

namespace ReviewQueue

/-! ## Rounding to integers -/

/-- A fraction and the integer that it is rounded to differ by a half at most. -/
theorem abs_roundRatio_sub_le (n : Nat) {d : Nat} (hd : 0 < d) : |(roundRatio n d : ℚ) - n / d| ≤ 1 / 2 := by
  have hd' : (0 : ℚ) < d := by exact_mod_cast hd
  have hdivision : (n : ℚ) = d * (n / d : Nat) + (n % d : Nat) := by exact_mod_cast (Nat.div_add_mod n d).symm
  have hquotient : (n : ℚ) / d = (n / d : Nat) + (n % d : Nat) / d := by
    rw [div_eq_iff hd'.ne', add_mul, div_mul_cancel₀ _ hd'.ne']
    linarith
  have hrest : ((n % d : Nat) : ℚ) < d := by exact_mod_cast Nat.mod_lt n hd
  rw [hquotient]
  unfold roundRatio
  dsimp only
  split
  next hup =>
    -- the rest is at least half of the divisor
    have hhalf : (d : ℚ) ≤ 2 * (n % d : Nat) := by exact_mod_cast show d ≤ 2 * (n % d) by omega
    have hlow : (1 : ℚ) / 2 ≤ (n % d : Nat) / d := (le_div_iff₀ hd').mpr (by linarith)
    have hhigh : ((n % d : Nat) : ℚ) / d ≤ 1 := (div_le_one hd').mpr hrest.le
    rw [abs_le]
    push_cast
    constructor <;> linarith
  next hdown =>
    have hhalf : 2 * ((n % d : Nat) : ℚ) ≤ d := by exact_mod_cast show 2 * (n % d) ≤ d by omega
    have hlow : (0 : ℚ) ≤ (n % d : Nat) / d := by positivity
    have hhigh : ((n % d : Nat) : ℚ) / d ≤ 1 / 2 := (div_le_iff₀ hd').mpr (by linarith)
    rw [abs_le]
    constructor <;> linarith

/-- What a fraction is rounded to depends on its value alone. -/
theorem roundRatio_mul_right (n d : Nat) {k : Nat} (hk : 0 < k) : roundRatio (n * k) (d * k) = roundRatio n d := by
  have hrest : 2 * (n % d * k) = 2 * (n % d) * k := (Nat.mul_assoc ..).symm
  unfold roundRatio
  simp only [Nat.mul_div_mul_right _ _ hk, Nat.mul_mod_mul_right, hrest, Nat.mul_lt_mul_right hk, Nat.mul_left_inj hk.ne']

/-! ## The power of two below a fraction -/

/-- The power of two below a fraction depends on its value alone. -/
theorem floorLog_mul_right {n d k : Nat} (hd : 0 < d) (hk : 0 < k) : floorLog (n * k) (d * k) = floorLog n d := by
  have hpred : (d * k - 1) / (n * k) = (d - 1) / n := by
    obtain ⟨m, rfl⟩ := Nat.exists_eq_succ_of_ne_zero hd.ne'
    have hlast : m.succ * k - 1 = k * m + (k - 1) := by
      rw [Nat.succ_mul, Nat.mul_comm m k]
      omega
    rw [hlast, Nat.mul_comm n k, ← Nat.div_div_eq_div_mul, Nat.mul_add_div hk, Nat.div_eq_of_lt (show k - 1 < k by omega)]
    rfl
  unfold floorLog
  simp only [Nat.mul_le_mul_right_iff hk, Nat.mul_div_mul_right _ _ hk, hpred]

/-- A fraction lies between the power of two and the next. -/
theorem floorLog_spec {n d : Nat} (hn : n ≠ 0) (hd : 0 < d) :
    (2 : ℚ) ^ floorLog n d ≤ n / d ∧ (n : ℚ) / d < 2 ^ (floorLog n d + 1) := by
  have hd' : (0 : ℚ) < d := by exact_mod_cast hd
  unfold floorLog
  split
  next hle =>
    have hpos : n / d ≠ 0 := Nat.div_ne_zero_iff.mpr ⟨hd.ne', hle⟩
    have hlow : 2 ^ (n / d).log2 * d ≤ n := (Nat.le_div_iff_mul_le hd).mp (Nat.log2_self_le hpos)
    have hhigh : n < 2 ^ ((n / d).log2 + 1) * d := (Nat.div_lt_iff_lt_mul hd).mp Nat.lt_log2_self
    constructor
    · rw [le_div_iff₀ hd', zpow_natCast]
      exact_mod_cast hlow
    · rw [div_lt_iff₀ hd']
      exact_mod_cast hhigh
  next hlt =>
    -- the quotient is the other way round, so the bounds change places
    have hn' : (0 : ℚ) < n := by exact_mod_cast Nat.pos_of_ne_zero hn
    have hpos : (d - 1) / n ≠ 0 := Nat.div_ne_zero_iff.mpr ⟨hn, by omega⟩
    have hlow : 2 ^ ((d - 1) / n).log2 * n < d := by
      have hle := (Nat.le_div_iff_mul_le (Nat.pos_of_ne_zero hn)).mp (Nat.log2_self_le hpos)
      omega
    have hhigh : d ≤ 2 ^ (((d - 1) / n).log2 + 1) * n := by
      have hlt := (Nat.div_lt_iff_lt_mul (Nat.pos_of_ne_zero hn)).mp (Nat.lt_log2_self (n := (d - 1) / n))
      omega
    have hlow' : (2 : ℚ) ^ ((d - 1) / n).log2 * n < d := by exact_mod_cast hlow
    have hhigh' : (d : ℚ) ≤ 2 ^ (((d - 1) / n).log2 + 1) * n := by exact_mod_cast hhigh
    generalize ((d - 1) / n).log2 = k at hlow' hhigh'
    constructor
    · rw [show (-(k : ℤ) - 1) = -((k + 1 : Nat) : ℤ) by push_cast; ring, zpow_neg, zpow_natCast, inv_le_comm₀ (by positivity)
        (by positivity), inv_div, div_le_iff₀ hn']
      exact hhigh'
    · rw [sub_add_cancel, zpow_neg, zpow_natCast, lt_inv_comm₀ (by positivity) (by positivity), inv_div, lt_div_iff₀ hn']
      exact hlow'

/-- Only one power of two is next below a fraction. -/
theorem floorLog_eq {n d : Nat} (hn : n ≠ 0) (hd : 0 < d) {e : Int} (hlow : (2 : ℚ) ^ e ≤ n / d)
    (hhigh : (n : ℚ) / d < 2 ^ (e + 1)) :
    floorLog n d = e := by
  obtain ⟨hlow', hhigh'⟩ := floorLog_spec hn hd
  have hbelow := (zpow_lt_zpow_iff_right₀ (by norm_num : (1 : ℚ) < 2)).mp (hlow.trans_lt hhigh')
  have habove := (zpow_lt_zpow_iff_right₀ (by norm_num : (1 : ℚ) < 2)).mp (hlow'.trans_lt hhigh)
  omega

/-- A fraction below a power of two has a smaller exponent. -/
theorem floorLog_lt {n d : Nat} (hn : n ≠ 0) (hd : 0 < d) {e : Int} (h : (n : ℚ) / d < 2 ^ e) : floorLog n d < e :=
  (zpow_lt_zpow_iff_right₀ (by norm_num : (1 : ℚ) < 2)).mp ((floorLog_spec hn hd).1.trans_lt h)

/-! ## Sizes -/

/-- The number that digits and an exponent stand for. -/
def Binary.value (b : Binary) : ℚ := b.digits * 2 ^ b.exponent

theorem two_zpow_eq (e : Int) : (2 : ℚ) ^ e = (2 ^ e.toNat : Nat) / (2 ^ (-e).toNat : Nat) := by
  rcases Int.le_total 0 e with he | he
  · lift e to ℕ using he
    simp
  · obtain ⟨k, rfl⟩ := Int.exists_eq_neg_ofNat he
    simp

/-- The fraction of such a number is its value. -/
theorem Binary.numerator_div_denominator (b : Binary) : (b.numerator : ℚ) / b.denominator = b.value := by
  unfold numerator denominator value
  rw [two_zpow_eq b.exponent, Nat.shiftLeft_eq, Nat.one_shiftLeft]
  push_cast
  ring

namespace Double

theorem infinite_eq : infinite = 2047 * 2 ^ 52 := rfl

/-- The size of a number. -/
def magnitude (x : Double) : ℚ := x.size.value

/-- The exponent of the unit of a fraction. -/
def unit (n d : Nat) : Int := max (floorLog n d - 52) (-1074)

/-- A fraction in its unit, rounded. -/
def units (n d : Nat) : Nat := roundRatio (n * 2 ^ (-unit n d).toNat) (d * 2 ^ (unit n d).toNat)

variable {n d : Nat}

/-- A fraction in units of a power of two. -/
theorem ratio_eq (n d : Nat) (e : Int) :
    ((n * 2 ^ (-e).toNat : Nat) : ℚ) / (d * 2 ^ e.toNat : Nat) = n / d / 2 ^ e := by
  rw [two_zpow_eq e]
  push_cast
  field_simp

/-- In its unit a fraction and what it is rounded to differ by a half at most. -/
theorem abs_units_sub_le (n : Nat) (hd : 0 < d) : |(units n d : ℚ) - n / d / 2 ^ unit n d| ≤ 1 / 2 := by
  unfold units
  rw [← ratio_eq]
  exact abs_roundRatio_sub_le _ (Nat.mul_pos hd (Nat.two_pow_pos _))

/-- A fraction has no more than 2^53 units, and no less than 2^52 of them unless the unit is the least. -/
theorem units_bounds (hn : n ≠ 0) (hd : 0 < d) : units n d ≤ 2 ^ 53 ∧ (-1074 < unit n d → 2 ^ 52 ≤ units n d) := by
  obtain ⟨hlow, hhigh⟩ := floorLog_spec hn hd
  have hnear := abs_le.mp (abs_units_sub_le n hd)
  have hpos : (0 : ℚ) < 2 ^ unit n d := zpow_pos (by norm_num) _
  constructor
  · have hlt : (n : ℚ) / d / 2 ^ unit n d < 2 ^ 53 := by
      rw [div_lt_iff₀ hpos, ← zpow_natCast, ← zpow_add₀ (by norm_num)]
      refine hhigh.trans_le (zpow_le_zpow_right₀ (by norm_num) ?_)
      unfold unit
      push_cast
      omega
    have hbound : (units n d : ℚ) < (2 ^ 53 + 1 : Nat) := by push_cast; linarith [hnear.2]
    exact Nat.lt_succ_iff.mp (by exact_mod_cast hbound)
  · intro he
    have hge : (2 : ℚ) ^ 52 ≤ n / d / 2 ^ unit n d := by
      rw [le_div_iff₀ hpos, ← zpow_natCast, ← zpow_add₀ (by norm_num)]
      refine (zpow_le_zpow_right₀ (by norm_num) ?_).trans hlow
      unfold unit at he ⊢
      push_cast
      omega
    have hbound : ((2 ^ 52 : Nat) : ℚ) < (units n d + 1 : Nat) := by push_cast; linarith [hnear.1]
    exact Nat.lt_succ_iff.mp (by exact_mod_cast hbound)

/-- The place of a number tells the digits and the exponent of its size. -/
theorem size_eq {x : Double} {t m : Nat} (hplace : x.place = t * 2 ^ 52 + m) (hm : m < 2 ^ 53) (ht : t = 0 ∨ 2 ^ 52 ≤ m) :
    x.size = ⟨m, (t : Int) - 1074⟩ := by
  have hscale : x.place >>> 52 - 1 = t := by omega
  unfold size
  dsimp only
  rw [hscale, hplace, Nat.shiftLeft_eq, Nat.add_sub_cancel_left]

/-- The place of what a fraction is rounded to: its exponent, then its units, and infinity at most. -/
theorem place_ofFraction (negative : Bool) (hn : n ≠ 0) (d : Nat) :
    (ofFraction negative n d).place = min ((unit n d + 1074).toNat * 2 ^ 52 + units n d) infinite := by
  unfold ofFraction units unit
  simp only [if_neg hn, Nat.shiftLeft_eq]

/-- Below the last power of two a fraction becomes its units. -/
theorem magnitude_ofFraction (negative : Bool) (hn : n ≠ 0) (hd : 0 < d) (hlog : floorLog n d ≤ 1022) :
    (ofFraction negative n d).magnitude = units n d * 2 ^ unit n d := by
  obtain ⟨hmost, hleast⟩ := units_bounds hn hd
  obtain ⟨t, ht⟩ : ∃ t : Nat, unit n d = t - 1074 := ⟨(unit n d + 1074).toNat, by unfold unit; omega⟩
  have hlast : t ≤ 2044 := by unfold unit at ht; omega
  have hplace : (ofFraction negative n d).place = t * 2 ^ 52 + units n d := by
    rw [place_ofFraction negative hn d, ht]
    rw [infinite_eq]
    omega
  unfold magnitude Binary.value
  by_cases hfull : units n d = 2 ^ 53
  · -- so many units are half as many of twice the size
    rw [size_eq (t := t + 1) (m := 2 ^ 52) (by rw [hplace, hfull]; omega) (by norm_num) (Or.inr (by norm_num)), hfull, ht]
    push_cast
    rw [show ((t : ℤ) + 1 - 1074) = (t - 1074) + 1 by ring, zpow_add₀ (by norm_num)]
    ring
  · rw [size_eq hplace (by omega) (by omega), ht]

theorem place_ofFraction_zero (negative : Bool) (d : Nat) : (ofFraction negative 0 d).place = 0 := by simp [ofFraction]

theorem magnitude_ofFraction_zero (negative : Bool) (d : Nat) : (ofFraction negative 0 d).magnitude = 0 := by
  unfold magnitude Binary.value
  rw [size_eq (t := 0) (m := 0) (place_ofFraction_zero negative d) (by norm_num) (Or.inl rfl), Nat.cast_zero, zero_mul]

/-- What a fraction is rounded to depends on its value alone. -/
theorem ofFraction_congr (negative : Bool) {n' d' : Nat} (hd : 0 < d) (hd' : 0 < d') (h : (n : ℚ) / d = n' / d') :
    ofFraction negative n d = ofFraction negative n' d' := by
  have hscale : ∀ {n d k : Nat}, 0 < d → 0 < k → ofFraction negative (n * k) (d * k) = ofFraction negative n d := by
    intro n d k hd hk
    by_cases hn : n = 0
    · subst hn
      simp [ofFraction]
    · have hnk : n * k ≠ 0 := Nat.mul_ne_zero hn hk.ne'
      have hunit : unit (n * k) (d * k) = unit n d := by rw [unit, floorLog_mul_right hd hk, unit]
      have hunits : units (n * k) (d * k) = units n d := by
        rw [units, hunit, units, Nat.mul_right_comm, Nat.mul_right_comm d, roundRatio_mul_right _ _ hk]
      have hplace : (ofFraction negative (n * k) (d * k)).place = (ofFraction negative n d).place := by
        rw [place_ofFraction negative hnk, place_ofFraction negative hn, hunit, hunits]
      cases hx : ofFraction negative (n * k) (d * k)
      cases hy : ofFraction negative n d
      rw [hx, hy] at hplace
      cases hplace
      cases congrArg Double.negative hx
      cases congrArg Double.negative hy
      rfl
  have hcross : n * d' = n' * d := by
    have hd₀ : (d : ℚ) ≠ 0 := by exact_mod_cast hd.ne'
    have hd₀' : (d' : ℚ) ≠ 0 := by exact_mod_cast hd'.ne'
    rw [div_eq_div_iff hd₀ hd₀'] at h
    exact_mod_cast h
  calc ofFraction negative n d = ofFraction negative (n * d') (d * d') := (hscale hd hd').symm
    _ = ofFraction negative (n' * d) (d' * d) := by rw [hcross, Nat.mul_comm d]
    _ = ofFraction negative n' d' := hscale hd' hd

/-- A fraction below a power of two is off by half the unit at most that numbers just below that power have. -/
theorem abs_magnitude_ofFraction_sub_le (negative : Bool) (n : Nat) (hd : 0 < d) {e : Int} (hleast : -1021 ≤ e) (hlast : e ≤ 1023)
    (h : (n : ℚ) / d < 2 ^ e) : |(ofFraction negative n d).magnitude - n / d| ≤ 2 ^ (e - 54) := by
  by_cases hn : n = 0
  · subst hn
    rw [magnitude_ofFraction_zero]
    simpa using zpow_nonneg (by norm_num : (0 : ℚ) ≤ 2) (e - 54)
  · have hlog := floorLog_lt hn hd h
    have hpos : (0 : ℚ) < 2 ^ unit n d := zpow_pos (by norm_num) _
    have hnear := abs_units_sub_le n hd
    have hunit : (2 : ℚ) ^ unit n d ≤ 2 ^ (e - 53) := zpow_le_zpow_right₀ (by norm_num) (by unfold unit; omega)
    rw [magnitude_ofFraction negative hn hd (by omega)]
    calc |(units n d : ℚ) * 2 ^ unit n d - n / d|
        = |(units n d : ℚ) - n / d / 2 ^ unit n d| * 2 ^ unit n d := by
          rw [← abs_of_pos hpos, ← abs_mul, abs_of_pos hpos, sub_mul, div_mul_cancel₀ _ hpos.ne']
      _ ≤ 1 / 2 * 2 ^ (e - 53) := mul_le_mul hnear hunit hpos.le (by norm_num)
      _ = 2 ^ (e - 54) := by
          rw [show e - 53 = (e - 54) + 1 by ring, zpow_add₀ (by norm_num)]
          ring

/-- A multiple of less than 2^53 of a power of two is not changed. -/
theorem magnitude_ofFraction_of_grid (negative : Bool) (hd : 0 < d) {m : Nat} (hm : m < 2 ^ 53) {e : Int} (hleast : -1074 ≤ e)
    (hlast : e ≤ 970) (h : (n : ℚ) / d = m * 2 ^ e) : (ofFraction negative n d).magnitude = n / d := by
  by_cases hn : n = 0
  · subst hn
    rw [magnitude_ofFraction_zero]
    simp
  · have hbound : (n : ℚ) / d < 2 ^ (e + 53) := by
      have hm' : (m : ℚ) < 2 ^ (53 : ℤ) := by exact_mod_cast hm
      rw [h, add_comm, zpow_add₀ (by norm_num)]
      exact mul_lt_mul_of_pos_right hm' (zpow_pos (by norm_num) _)
    have hlog := floorLog_lt hn hd hbound
    have hunit : unit n d ≤ e := by unfold unit; omega
    obtain ⟨k, hk⟩ := Int.le.dest hunit
    have hpos : (0 : ℚ) < 2 ^ unit n d := zpow_pos (by norm_num) _
    -- the fraction is a whole number of units, and it is rounded to one that is less than one off
    have hwhole : (n : ℚ) / d / 2 ^ unit n d = (m * 2 ^ k : Nat) := by
      rw [h, div_eq_iff hpos.ne', ← hk, zpow_add₀ (by norm_num), zpow_natCast]
      push_cast
      ring
    have hnear := abs_le.mp (abs_units_sub_le n hd)
    rw [hwhole] at hnear
    have hbelow : units n d < m * 2 ^ k + 1 := by
      have hlt : (units n d : ℚ) < (m * 2 ^ k + 1 : Nat) := by push_cast at hnear ⊢; linarith [hnear.2]
      exact_mod_cast hlt
    have habove : m * 2 ^ k < units n d + 1 := by
      have hlt : ((m * 2 ^ k : Nat) : ℚ) < (units n d + 1 : Nat) := by push_cast at hnear ⊢; linarith [hnear.1]
      exact_mod_cast hlt
    rw [magnitude_ofFraction negative hn hd (by omega), show units n d = m * 2 ^ k by omega, ← hwhole, div_mul_cancel₀ _ hpos.ne']

/-! ## Calculations -/

variable {x y : Double} {a b : Nat}

theorem numerator_div_denominator (x : Double) : (x.size.numerator : ℚ) / x.denominator = x.magnitude :=
  x.size.numerator_div_denominator

/-- A sum is the number nearest to that of the sizes. -/
theorem add_fraction (x y : Double) :
    ((x.size.numerator * y.denominator + y.size.numerator * x.denominator : Nat) : ℚ) / (x.denominator * y.denominator : Nat) =
      x.magnitude + y.magnitude := by
  have hx : (x.denominator : ℚ) ≠ 0 := by exact_mod_cast x.denominator_pos.ne'
  have hy : (y.denominator : ℚ) ≠ 0 := by exact_mod_cast y.denominator_pos.ne'
  rw [← numerator_div_denominator, ← numerator_div_denominator]
  push_cast
  field_simp

/-- A product is the number nearest to that of the sizes. -/
theorem mul_fraction (x y : Double) :
    ((x.size.numerator * y.size.numerator : Nat) : ℚ) / (x.denominator * y.denominator : Nat) = x.magnitude * y.magnitude := by
  rw [← numerator_div_denominator, ← numerator_div_denominator]
  push_cast
  exact (div_mul_div_comm ..).symm

/-- A sum below a power of two is off by half a unit of it at most. -/
theorem abs_magnitude_add_sub_le {e : Int} (hleast : -1021 ≤ e) (hlast : e ≤ 1023) (h : x.magnitude + y.magnitude < 2 ^ e) :
    |(x.add y).magnitude - (x.magnitude + y.magnitude)| ≤ 2 ^ (e - 54) := by
  rw [← add_fraction] at h ⊢
  exact abs_magnitude_ofFraction_sub_le false _ (Nat.mul_pos x.denominator_pos y.denominator_pos) hleast hlast h

/-- So is a product. -/
theorem abs_magnitude_mul_sub_le {e : Int} (hleast : -1021 ≤ e) (hlast : e ≤ 1023) (h : x.magnitude * y.magnitude < 2 ^ e) :
    |(x.mul y).magnitude - x.magnitude * y.magnitude| ≤ 2 ^ (e - 54) := by
  rw [← mul_fraction] at h ⊢
  exact abs_magnitude_ofFraction_sub_le false _ (Nat.mul_pos x.denominator_pos y.denominator_pos) hleast hlast h

/-- What is left of a number without what comes after its point. -/
theorem truncate_bounds (h : x.negative = false) : (x.truncate : ℚ) ≤ x.magnitude ∧ x.magnitude < x.truncate + 1 := by
  have hpos : (0 : ℚ) < x.size.denominator := by exact_mod_cast x.denominator_pos
  have htruncate : x.truncate = x.size.floor := by
    unfold truncate
    rw [h, if_neg Bool.false_ne_true]
  rw [htruncate, ← numerator_div_denominator, Int.cast_natCast]
  unfold Binary.floor denominator
  constructor
  · rw [le_div_iff₀ hpos]
    exact_mod_cast Nat.div_mul_le_self ..
  · rw [div_lt_iff₀ hpos]
    exact_mod_cast (Nat.div_lt_iff_lt_mul x.denominator_pos).mp (Nat.lt_succ_self (x.size.numerator / x.size.denominator))

/-- Infinity is greater than all that an integer of 64 bits can be. -/
theorem lt_infinite (h : x.magnitude < 2 ^ 64) : x.place < infinite := by
  refine lt_of_le_of_ne x.place_le fun hplace => absurd h (not_lt.mpr ?_)
  have hsize := size_eq (x := x) (t := 2046) (m := 2 ^ 52) (by rw [hplace, infinite_eq]; norm_num) (by norm_num)
    (Or.inr (Nat.le_refl _))
  have hgrows : (2 : ℚ) ^ (12 : ℤ) ≤ 2 ^ (((2046 : Nat) : ℤ) - 1074) := zpow_le_zpow_right₀ (by norm_num) (by norm_num)
  calc (2 : ℚ) ^ 64 = (2 ^ 52 : Nat) * 2 ^ (12 : ℤ) := by norm_num
    _ ≤ x.magnitude := by
      rw [magnitude, hsize]
      exact mul_le_mul_of_nonneg_left hgrows (Nat.cast_nonneg _)

/-! ## Natural numbers -/

/-- The size of a number is a natural number. -/
def IsNat (x : Double) (n : Nat) : Prop := x.magnitude = n

/-- A fraction that is a natural number of 53 bits is not changed. -/
theorem isNat_ofFraction (negative : Bool) (hd : 0 < d) {m : Nat} (hm : m < 2 ^ 53) (h : (n : ℚ) / d = m) :
    (ofFraction negative n d).IsNat m := by
  unfold IsNat
  rw [magnitude_ofFraction_of_grid negative hd hm (e := 0) (by norm_num) (by norm_num) (by rw [h]; simp), h]

theorem isNat_zero : zero.IsNat 0 := by
  unfold IsNat magnitude Binary.value
  rw [size_eq (t := 0) (m := 0) (show zero.place = 0 from rfl) (by norm_num) (Or.inl rfl), Nat.cast_zero, zero_mul]

/-- An integer of 53 bits is not changed. -/
theorem isNat_ofInt (hn : n < 2 ^ 53) : (ofInt n).IsNat n := isNat_ofFraction _ Nat.one_pos hn (by simp)

namespace IsNat

/-- Sums of natural numbers are exact up to 53 bits. -/
theorem add (hx : x.IsNat a) (hy : y.IsNat b) (h : a + b < 2 ^ 53) : (x.add y).IsNat (a + b) :=
  isNat_ofFraction false (Nat.mul_pos x.denominator_pos y.denominator_pos) h (by rw [add_fraction, hx, hy]; push_cast; rfl)

/-- So are products. -/
theorem mul (hx : x.IsNat a) (hy : y.IsNat b) (h : a * b < 2 ^ 53) : (x.mul y).IsNat (a * b) :=
  isNat_ofFraction false (Nat.mul_pos x.denominator_pos y.denominator_pos) h (by rw [mul_fraction, hx, hy]; push_cast; rfl)

/-- So are differences. -/
theorem sub (hx : x.IsNat (a + b)) (hy : y.IsNat b) (h : a < 2 ^ 53) : (x.sub y).IsNat a := by
  have hx₀ : (x.denominator : ℚ) ≠ 0 := by exact_mod_cast x.denominator_pos.ne'
  have hy₀ : (y.denominator : ℚ) ≠ 0 := by exact_mod_cast y.denominator_pos.ne'
  have hxnum : (x.size.numerator : ℚ) = (a + b) * x.denominator := by
    rw [← div_eq_iff hx₀, numerator_div_denominator, hx]
    push_cast
    rfl
  have hynum : (y.size.numerator : ℚ) = b * y.denominator := by
    rw [← div_eq_iff hy₀, numerator_div_denominator, hy]
  have hcross : x.size.numerator * y.denominator - y.size.numerator * x.denominator = a * (x.denominator * y.denominator) := by
    refine Nat.sub_eq_of_eq_add ?_
    have heq : (x.size.numerator : ℚ) * y.denominator =
        a * (x.denominator * y.denominator) + y.size.numerator * x.denominator := by
      rw [hxnum, hynum]
      ring
    exact_mod_cast heq
  refine isNat_ofFraction false (Nat.mul_pos x.denominator_pos y.denominator_pos) h ?_
  rw [hcross]
  push_cast
  field_simp

/-- The quotient of natural numbers is the number nearest to their fraction. -/
theorem div_eq (hx : x.IsNat a) (hy : y.IsNat b) (hb : 0 < b) : x.div y = ofFraction false a b := by
  have hx₀ : (x.denominator : ℚ) ≠ 0 := by exact_mod_cast x.denominator_pos.ne'
  have hy₀ : (y.denominator : ℚ) ≠ 0 := by exact_mod_cast y.denominator_pos.ne'
  have hxnum : (x.size.numerator : ℚ) = a * x.denominator := by rw [← div_eq_iff hx₀, numerator_div_denominator, hx]
  have hynum : (y.size.numerator : ℚ) = b * y.denominator := by rw [← div_eq_iff hy₀, numerator_div_denominator, hy]
  have hb₀ : (b : ℚ) ≠ 0 := by exact_mod_cast hb.ne'
  have hpos : 0 < y.size.numerator := by
    have hpos' : (0 : ℚ) < y.size.numerator := by
      rw [hynum]
      exact_mod_cast Nat.mul_pos hb y.denominator_pos
    exact_mod_cast hpos'
  refine ofFraction_congr false (Nat.mul_pos x.denominator_pos hpos) hb ?_
  push_cast
  rw [hxnum, hynum]
  field_simp

/-- Such a number is finite. -/
theorem isInfinite_eq_false (hx : x.IsNat a) (ha : a < 2 ^ 53) : x.isInfinite = false := by
  have hlt : x.magnitude < 2 ^ 64 := by
    rw [hx]
    exact_mod_cast ha.trans (by norm_num)
  exact decide_eq_false (lt_infinite hlt).ne

end IsNat

/-! ## Numbers as fractions of themselves -/

/-- A number that is finite is the one nearest to its size. -/
theorem place_ofFraction_size (negative : Bool) (hx : x.place < infinite) :
    (ofFraction negative x.size.numerator x.denominator).place = x.place := by
  obtain ⟨t, m, hplace, hm, ht⟩ : ∃ t m, x.place = t * 2 ^ 52 + m ∧ m < 2 ^ 53 ∧ (t = 0 ∨ 2 ^ 52 ≤ m) :=
    ⟨x.place / 2 ^ 52 - 1, x.place - (x.place / 2 ^ 52 - 1) * 2 ^ 52, by omega, by omega, by omega⟩
  have hsize := size_eq hplace hm ht
  by_cases hzero : m = 0
  · have hnone : x.size.numerator = 0 := by rw [hsize, hzero, Binary.numerator, Nat.shiftLeft_eq, Nat.zero_mul]
    rw [hnone, place_ofFraction_zero]
    omega
  have hvalue : (x.size.numerator : ℚ) / x.denominator = m * 2 ^ ((t : ℤ) - 1074) := by
    rw [numerator_div_denominator, magnitude, hsize, Binary.value]
  have hpos : (0 : ℚ) < 2 ^ ((t : ℤ) - 1074) := zpow_pos (by norm_num) _
  have hnumerator : x.size.numerator ≠ 0 := by
    rw [hsize, Binary.numerator, Nat.shiftLeft_eq]
    exact Nat.mul_ne_zero hzero (Nat.two_pow_pos _).ne'
  have hlog : floorLog x.size.numerator x.denominator = t - 1074 + m.log2 := by
    have hlow : (2 : ℚ) ^ m.log2 ≤ m := by exact_mod_cast Nat.log2_self_le hzero
    have hhigh : (m : ℚ) < 2 ^ (m.log2 + 1) := by exact_mod_cast Nat.lt_log2_self
    refine floorLog_eq hnumerator x.denominator_pos ?_ ?_ <;> rw [hvalue]
    · rw [zpow_add₀ (by norm_num), mul_comm, zpow_natCast]
      exact mul_le_mul_of_nonneg_right hlow hpos.le
    · rw [add_assoc, zpow_add₀ (by norm_num), mul_comm]
      exact mul_lt_mul_of_pos_left (by exact_mod_cast hhigh) hpos
  have hunit : unit x.size.numerator x.denominator = t - 1074 := by
    have hmost : m.log2 < 53 := (Nat.log2_lt hzero).mpr hm
    have hleast : t = 0 ∨ 52 ≤ m.log2 := ht.imp_right (Nat.le_log2 hzero).mpr
    unfold unit
    omega
  have hunits : units x.size.numerator x.denominator = m := by
    have hnear := abs_le.mp (abs_units_sub_le x.size.numerator x.denominator_pos)
    rw [hunit, hvalue, mul_div_cancel_right₀ _ hpos.ne'] at hnear
    have hbelow : (units x.size.numerator x.denominator : ℚ) < (m + 1 : Nat) := by push_cast; linarith [hnear.2]
    have habove : (m : ℚ) < (units x.size.numerator x.denominator + 1 : Nat) := by push_cast; linarith [hnear.1]
    have hbelow' : units x.size.numerator x.denominator < m + 1 := by exact_mod_cast hbelow
    have habove' : m < units x.size.numerator x.denominator + 1 := by exact_mod_cast habove
    omega
  rw [infinite_eq] at hx
  rw [place_ofFraction negative hnumerator, hunit, hunits, hplace, infinite_eq, Nat.min_eq_left] <;> omega

/-- A number that stands for an integer has nothing after its point, and the integer has 64 bits. -/
theorem toInt?_eq_some {m : Int} (h : x.toInt? = some m) :
    x.truncate = m ∧ x.truncate * x.denominator = x.numerator ∧ m.natAbs < 2 ^ 63 := by
  unfold toInt? at h
  split at h
  next hint =>
    obtain ⟨hwhole, hlow, hhigh⟩ := hint
    rw [Int64.toInt_minValue] at hlow
    rw [Int64.toInt_maxValue] at hhigh
    cases h
    exact ⟨rfl, hwhole, by omega⟩
  next => cases h

/-- Without their signs the number and the integer that it stands for are the same. -/
theorem isNat_of_toInt? {m : Int} (h : x.toInt? = some m) : x.IsNat m.natAbs := by
  obtain ⟨htruncate, hwhole, -⟩ := toInt?_eq_some h
  have hcross : m.natAbs * x.denominator = x.size.numerator := by
    rw [← htruncate]
    unfold truncate numerator at *
    cases hsign : x.negative with
    | true =>
      rw [hsign, if_pos rfl, if_pos rfl, Int.neg_mul, Int.neg_inj] at hwhole
      rw [if_pos rfl, Int.natAbs_neg, Int.natAbs_natCast]
      exact_mod_cast hwhole
    | false =>
      rw [hsign, if_neg Bool.false_ne_true, if_neg Bool.false_ne_true] at hwhole
      rw [if_neg Bool.false_ne_true, Int.natAbs_natCast]
      exact_mod_cast hwhole
  have hpos : (x.denominator : ℚ) ≠ 0 := by exact_mod_cast x.denominator_pos.ne'
  unfold IsNat
  rw [← numerator_div_denominator, div_eq_iff hpos]
  exact_mod_cast hcross.symm

/-- An integer that is not zero does not become zero. -/
theorem place_ofInt_ne_zero {k : Int} (hk : k ≠ 0) : (ofInt k).place ≠ 0 := by
  have hunits := (units_bounds (Int.natAbs_ne_zero.mpr hk) Nat.one_pos).2 (by
    unfold unit floorLog
    rw [if_pos (by omega)]
    omega)
  rw [ofInt, place_ofFraction _ (Int.natAbs_ne_zero.mpr hk), infinite_eq]
  omega

/-- Nor does it stand for zero, if it is finite. -/
theorem ne_zero_of_toInt? {k m : Int} (hk : k ≠ 0) (hfinite : (ofInt k).place < infinite) (h : (ofInt k).toInt? = some m) :
    m ≠ 0 := by
  rintro rfl
  have hmagnitude : (ofInt k).magnitude = (0 : Nat) := isNat_of_toInt? h
  have hpos : ((ofInt k).denominator : ℚ) ≠ 0 := by exact_mod_cast (ofInt k).denominator_pos.ne'
  have hnone : (ofInt k).size.numerator = 0 := by
    rw [← numerator_div_denominator, Nat.cast_zero, div_eq_zero_iff, or_iff_left hpos] at hmagnitude
    exact_mod_cast hmagnitude
  have hplace := place_ofFraction_size false hfinite
  rw [hnone, place_ofFraction_zero] at hplace
  exact place_ofInt_ne_zero hk hplace.symm

/-- A number that stands for an integer is the one nearest to that integer. -/
theorem ofInt_toInt? {k m : Int} (h : (ofInt k).toInt? = some m) : ofInt m = ofInt k := by
  obtain ⟨htruncate, -, hbits⟩ := toInt?_eq_some h
  have hmagnitude : (ofInt k).magnitude = m.natAbs := isNat_of_toInt? h
  have hfinite : (ofInt k).place < infinite := lt_infinite (by
    rw [hmagnitude]
    exact_mod_cast show m.natAbs < 2 ^ 64 by omega)
  have hplace : (ofInt m).place = (ofInt k).place := by
    unfold ofInt at hmagnitude hfinite ⊢
    rw [← place_ofFraction_size (m < 0) hfinite, ofFraction_congr (m < 0) Nat.one_pos (denominator_pos _)]
    rw [numerator_div_denominator, hmagnitude, Nat.cast_one, div_one]
  have hsign : (ofInt m).negative = (ofInt k).negative := by
    have hnegative : (ofInt k).negative = decide (k < 0) := rfl
    rw [truncate, hnegative] at htruncate
    rw [hnegative, show (ofInt m).negative = decide (m < 0) from rfl, decide_eq_decide]
    by_cases hk : k < 0
    · have hsome := ne_zero_of_toInt? hk.ne hfinite h
      rw [if_pos (decide_eq_true hk)] at htruncate
      omega
    · rw [if_neg (by simpa using hk)] at htruncate
      omega
  cases hx : ofInt m
  cases hy : ofInt k
  rw [hx, hy] at hplace hsign
  cases hplace
  cases hsign
  rfl

end Double
end ReviewQueue
